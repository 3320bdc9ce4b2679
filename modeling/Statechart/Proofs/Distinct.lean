/-
`Proofs/Distinct.lean` -- trees that repeat no member.

A table is a list of entries, and nothing in its type forbids a second entry for a key. Equality up
to the order of tables is an equality only where there is none. No table that is built by writes has
one, so no tree that is put together step by step has one either, as long as what goes into it has
none. What the compiler makes of the records in such a tree it makes by writes, and by taking
members away.
-/
import Statechart.Compile.Invoke
import Statechart.Compile.Machine
import Statechart.Compile.State
import Statechart.Element.Basic
import Statechart.Proofs.Equality

set_option autoImplicit false

namespace Statechart

/-! ## 1. Options records -/

namespace OptionsRecord

/-- The context and the raw members of the record repeat no member. -/
def Distinct (record : OptionsRecord) : Prop :=
  (∀ context, record.context = some context → context.Distinct) ∧
    (Json.obj record.config).Distinct

/-- What the step adds to a record repeats no member. A run of members may write to one more than
once. -/
def Step.Distinct : Step → Prop
  | .context value => value.Distinct
  | .config members => ∀ entry ∈ members, entry.2.Distinct
  | .bind _ _ _ => True

@[simp] theorem distinct_empty : ({} : OptionsRecord).Distinct :=
  ⟨nofun, Json.distinct_obj_nil⟩

/-- A step keeps a record free of repetition. -/
theorem Distinct.apply {record : OptionsRecord} (h : record.Distinct) {step : Step}
    (hstep : step.Distinct) : (record.apply step).Distinct := by
  obtain ⟨hcontext, hconfig⟩ := h
  cases step with
  | context value =>
      refine ⟨?_, hconfig⟩
      intro found hfound
      cases hfound
      exact hstep
  | config members => exact ⟨hcontext, hconfig.extend hstep⟩
  | bind group name implementation =>
      -- implementations are no members, and no group is read here
      cases group with
      | guard | action | mutation | activity | service | delay => exact ⟨hcontext, hconfig⟩

/-- A record that is built step by step repeats no member. -/
theorem distinct_ofSteps {steps : List Step} (h : ∀ step ∈ steps, step.Distinct) :
    (ofSteps steps).Distinct := by
  refine List.foldlRecOn steps OptionsRecord.apply distinct_empty ?_
  intro record hrecord step hstep
  exact hrecord.apply (h step hstep)

end OptionsRecord

/-! ## 2. Trees -/

variable {M : Type}

mutual
/-- No record in the tree repeats a member: not the attributes of an element, and not what an
options record brings to the configuration. -/
def Element.Distinct : Element M → Prop
  | .node _ attributes children => (Json.obj attributes).Distinct ∧ Child.AllDistinct children
/-- `Element.Distinct` of each child. -/
def Child.AllDistinct : List (Child M) → Prop
  | [] => True
  | .element element :: rest => element.Distinct ∧ Child.AllDistinct rest
  | .fragment found :: rest =>
      (∀ record, found = .options record → record.Distinct) ∧ Child.AllDistinct rest
end

theorem Child.allDistinct_append {first second : List (Child M)} :
    AllDistinct (first ++ second) ↔ AllDistinct first ∧ AllDistinct second := by
  induction first with
  | nil => exact (and_iff_right trivial).symm
  | cons child rest ih =>
      cases child with
      | element element => exact (and_congr_right fun _ => ih).trans and_assoc.symm
      | fragment found => exact (and_congr_right fun _ => ih).trans and_assoc.symm

theorem Child.allDistinct_map_element {more : List (Element M)} :
    AllDistinct (more.map .element) ↔ ∀ inner ∈ more, inner.Distinct := by
  induction more with
  | nil => exact (iff_of_true trivial nofun)
  | cons inner rest ih =>
      rw [List.forall_mem_cons]
      exact and_congr_right fun _ => ih

namespace Element

@[simp] theorem distinct_ofTag (tag : Tag M) : (ofTag tag).Distinct :=
  ⟨Json.distinct_obj_nil, trivial⟩

/-! The steps one by one. What a step makes is free of repetition exactly where its parts are, but for
an attribute: that may take the place of one that repeats a member. -/

section Steps

variable {element : Element M}

@[simp] theorem Distinct.attr (h : element.Distinct) (key : String) {value : Json}
    (hvalue : value.Distinct) : (element.attr key value).Distinct := by
  obtain ⟨tag, attributes, children⟩ := element
  have hentry : ∀ entry ∈ [(key, value)], entry.2.Distinct := List.forall_mem_singleton.mpr hvalue
  -- one attribute is a run of one write
  exact ⟨h.1.extend hentry, h.2⟩

@[simp] theorem distinct_append {more : List (Child M)} :
    (element.append more).Distinct ↔ element.Distinct ∧ Child.AllDistinct more := by
  obtain ⟨tag, attributes, children⟩ := element
  exact (and_congr_right fun _ => Child.allDistinct_append).trans and_assoc.symm

@[simp] theorem distinct_child {inner : Element M} :
    (element.child inner).Distinct ↔ element.Distinct ∧ inner.Distinct :=
  distinct_append.trans (and_congr_right fun _ => and_iff_left trivial)

@[simp] theorem distinct_childElements {more : List (Element M)} :
    (element.childElements more).Distinct ↔ element.Distinct ∧ ∀ inner ∈ more, inner.Distinct :=
  distinct_append.trans (and_congr_right fun _ => Child.allDistinct_map_element)

@[simp] theorem distinct_options {record : OptionsRecord} :
    (element.options record).Distinct ↔ record.Distinct ∧ element.Distinct := by
  obtain ⟨tag, attributes, children⟩ := element
  have hrecord : (∀ found, Fragment.options record = .options found → found.Distinct)
      ↔ record.Distinct := by
    simp
  exact (and_congr_right fun _ => and_congr_left fun _ => hrecord).trans and_left_comm

end Steps

/-- What the step adds to an element repeats no member. -/
def Step.Distinct : Step M → Prop
  | .attr _ value => value.Distinct
  | .attrs extra => ∀ entry ∈ extra, entry.2.Distinct
  | .child inner => inner.Distinct
  | .children more => ∀ inner ∈ more, inner.Distinct
  | .fragment found => ∀ record, found = .options record → record.Distinct
  | .options record => record.Distinct

/-- A step keeps a tree free of repetition. -/
theorem Distinct.apply {element : Element M} (h : element.Distinct) (step : Step M)
    (hstep : step.Distinct) : (element.apply step).Distinct := by
  cases step with
  | attr key value => exact h.attr key hstep
  | attrs extra =>
      obtain ⟨tag, attributes, children⟩ := element
      exact ⟨h.1.extend hstep, h.2⟩
  | child inner => exact distinct_child.mpr ⟨h, hstep⟩
  | children more => exact distinct_childElements.mpr ⟨h, hstep⟩
  | fragment found => exact distinct_append.mpr ⟨h, hstep, trivial⟩
  | options record => exact distinct_options.mpr ⟨hstep, h⟩

/-- An element that is built step by step repeats no member. -/
theorem distinct_foldl_apply (tag : Tag M) (steps : List (Step M))
    (h : ∀ step ∈ steps, step.Distinct) : (steps.foldl apply (ofTag tag)).Distinct := by
  refine List.foldlRecOn steps apply (distinct_ofTag tag) ?_
  intro element helement step hstep
  exact helement.apply step (h step hstep)

/-! The elements of each tag. -/

@[simp] theorem distinct_machine (id initial : String) :
    (machine id initial : Element M).Distinct :=
  distinct_foldl_apply _ [.attr "id" (.str id), .attr "initial" (.str initial)]
    (by simp [Step.Distinct])

@[simp] theorem distinct_state (id : String) : (state id : Element M).Distinct :=
  distinct_foldl_apply _ [.attr "id" (.str id)] (by simp [Step.Distinct])

@[simp] theorem distinct_transition (event target : String) :
    (transition event target : Element M).Distinct :=
  distinct_foldl_apply _ [.attr "event" (.str event), .attr "target" (.str target)]
    (by simp [Step.Distinct])

@[simp] theorem distinct_invoke (src : String) : (invoke src : Element M).Distinct :=
  distinct_foldl_apply _ [.attr "src" (.str src)] (by simp [Step.Distinct])

@[simp] theorem distinct_onDone : (onDone : Element M).Distinct := distinct_ofTag _

end Element

/-! ## 3. What compiles from such trees -/

namespace Compile

variable {attributes : Attributes}

/-- A hook repeats nothing where the attributes repeat nothing. -/
theorem distinct_hook? (hattributes : (Json.obj attributes).Distinct) (name markupName : String) :
    ∀ value, hook? attributes name markupName = some value → value.Distinct := by
  intro value hvalue
  rcases Option.or_eq_some_iff.mp hvalue with hname | ⟨-, hmarkup⟩
  · exact hattributes.of_get? hname
  · exact hattributes.of_get? hmarkup

/-- An outcome repeats no member where its attributes repeat none. -/
theorem distinct_outcome (hattributes : (Json.obj attributes).Distinct) (name : String) :
    (Json.obj (outcome name attributes)).Distinct :=
  Json.distinct_obj_iff.mpr
    ⟨List.nodup_singleton name, fun _ hentry => List.mem_singleton.mp hentry ▸ hattributes⟩

/-- The block of an invoked service repeats no member where its attributes and the records of its
children repeat none. -/
theorem distinct_invoke (hattributes : (Json.obj attributes).Distinct) {children : List Fragment}
    (hrecords : ∀ record ∈ Siblings.records children, (Json.obj record).Distinct) :
    (Json.obj (invoke attributes children).value).Distinct := by
  show (Json.obj (attributes.extend
    ((Siblings.records children).foldl OrderedMap.extend []))).Distinct
  refine hattributes.extend fun entry hentry => ?_
  rw [OrderedMap.foldl_extend] at hentry
  obtain ⟨record, hrecord, hmem⟩ := List.mem_flatten.mp (OrderedMap.mem_of_mem_ofBindings hentry)
  exact (Json.distinct_obj_iff.mp (hrecords record hrecord)).2 entry hmem

/-- The members of the `config` attribute repeat nothing. -/
theorem distinct_configMembers (hattributes : (Json.obj attributes).Distinct) :
    (Json.obj (configMembers attributes)).Distinct := by
  rw [configMembers]
  cases hvalue : attributes.get? "config" with
  | none => exact Json.distinct_obj_nil
  | some value =>
      have hdistinct := hattributes.of_get? hvalue
      cases value with
      | obj members => exact hdistinct
      | null | bool _ | num _ | str _ | arr _ => exact Json.distinct_obj_nil

/-- The raw members of a configuration repeat nothing. -/
theorem distinct_rawMembers (hattributes : (Json.obj attributes).Distinct)
    {options : OptionsRecord} (hoptions : options.Distinct) :
    (Json.obj (rawMembers attributes options)).Distinct :=
  (distinct_configMembers hattributes).extend (Json.distinct_obj_iff.mp hoptions.2).2

/-- A field of the top level repeats nothing where attributes and raw members repeat nothing. -/
theorem distinct_layered? (hattributes : (Json.obj attributes).Distinct) {raw : Attributes}
    (hraw : (Json.obj raw).Distinct) (field : String) :
    ∀ value, layered? attributes raw field = some value → value.Distinct := by
  intro value hvalue
  rcases Option.or_eq_some_iff.mp hvalue with hname | ⟨-, hrest⟩
  · exact hattributes.of_get? hname
  · exact hraw.of_get? hrest

/-- Neither does the initial context. -/
theorem distinct_context (hattributes : (Json.obj attributes).Distinct) {options : OptionsRecord}
    (hoptions : options.Distinct) (folded : Option StateTable) :
    (assembleConfig attributes options folded).context.Distinct := by
  show ((options.context.or ((rawMembers attributes options).get? "context")).getD
    (.obj [])).Distinct
  cases hvalue : options.context.or ((rawMembers attributes options).get? "context") with
  | none => exact Json.distinct_obj_nil
  | some value =>
      rcases Option.or_eq_some_iff.mp hvalue with hrecord | ⟨-, hmember⟩
      · exact hoptions.1 value hrecord
      · exact (distinct_rawMembers hattributes hoptions).of_get? hmember

end Compile

end Statechart
