/-
`Proofs/Markup.lean` -- plain markup, and what its elements yield.

Markup is plain when every tag in it is built in and nothing is compiled already but options
records. In plain markup the kind of a fragment is the tag of the child that yielded it, so the
fragments of one kind stand beside the child elements of one tag, in the same order.
-/
import Statechart.Proofs.Success
import Statechart.Proofs.Tables

set_option autoImplicit false

namespace Statechart

variable {M : Type}

/-! ## 1. Views of markup -/

/-- The child as an element with the given tag, if it is one. -/
def Child.as? (builtin : Builtin) : Child M → Option (Element M)
  | .element (.node (.builtin known) attributes children) =>
      if known = builtin then some (.node (.builtin known) attributes children) else none
  | _ => none

/-- The options record, if the child is one. -/
def Child.options? : Child M → Option OptionsRecord
  | .fragment found => found.options?
  | .element _ => none

/-- The name under which an outcome stands in an invoke block, with what stands there. -/
def Child.outcome? : Child M → Option (String × Json)
  | .element (.node (.builtin .onDone) attributes _) => some ("onDone", .obj attributes)
  | .element (.node (.builtin .onError) attributes _) => some ("onError", .obj attributes)
  | _ => none

namespace Element

/-- The child elements with the given tag, in their order. -/
def childrenOf (builtin : Builtin) (element : Element M) : List (Element M) :=
  element.children.filterMap (Child.as? builtin)

/-- The key that the attribute of a name spells. -/
def key? (name : String) (element : Element M) : Option String :=
  (element.attributes.get? name).map Json.key

/-- The block of an invoked service: its attributes, and over them the outcomes among its
children. -/
def invokeBlock (element : Element M) : Attributes :=
  element.attributes.extend (element.children.filterMap Child.outcome?)

end Element

mutual
/-- Every tag is built in, and nothing is compiled already but options records. -/
def Element.Plain : Element M → Prop
  | .node tag _ children => (∃ builtin, tag = .builtin builtin) ∧ Child.AllPlain children
/-- `Element.Plain` of each child. -/
def Child.AllPlain : List (Child M) → Prop
  | [] => True
  | .element element :: rest => element.Plain ∧ Child.AllPlain rest
  | .fragment found :: rest => (∃ record, found = .options record) ∧ Child.AllPlain rest
end

/-- A child of plain markup. -/
def Child.Plain : Child M → Prop
  | .element inner => inner.Plain
  | .fragment found => ∃ record, found = .options record

theorem Child.allPlain_iff {children : List (Child M)} :
    AllPlain children ↔ ∀ child ∈ children, child.Plain := by
  induction children with
  | nil => simp [AllPlain]
  | cons child rest ih => cases child <;> simp [AllPlain, Plain, ih]

/-! ## 2. Plain markup, step by step -/

namespace Element

/-- What the step adds to an element is plain. -/
def Step.Plain : Step M → Prop
  | .attr _ _ | .attrs _ | .options _ => True
  | .child inner => inner.Plain
  | .children more => ∀ inner ∈ more, inner.Plain
  | .fragment found => ∃ record, found = .options record

theorem plain_iff {element : Element M} :
    element.Plain ↔ (∃ builtin, element.tag = .builtin builtin) ∧
      ∀ child ∈ element.children, child.Plain := by
  obtain ⟨tag, attributes, children⟩ := element
  rw [Plain, Child.allPlain_iff]
  exact Iff.rfl

@[simp] theorem plain_ofTag (builtin : Builtin) : (ofTag (.builtin builtin) : Element M).Plain :=
  ⟨⟨builtin, rfl⟩, trivial⟩

@[simp] theorem plain_append {element : Element M} {more : List (Child M)} :
    (element.append more).Plain ↔ element.Plain ∧ ∀ child ∈ more, child.Plain := by
  have hchildren : (element.append more).children = element.children ++ more := rfl
  rw [plain_iff, plain_iff, hchildren, List.forall_mem_append, and_assoc]
  exact Iff.rfl

/-- A step leaves an element plain exactly where it was plain and what the step adds is. -/
theorem plain_apply_iff (element : Element M) (step : Step M) :
    (element.apply step).Plain ↔ element.Plain ∧ step.Plain := by
  obtain ⟨tag, attributes, children⟩ := element
  cases step with
  | attr key value => exact (and_iff_left trivial).symm
  | attrs extra => exact (and_iff_left trivial).symm
  | child inner => exact plain_append.trans (and_congr_right fun _ => List.forall_mem_singleton)
  | children more => exact plain_append.trans (and_congr_right fun _ => List.forall_mem_map)
  | fragment found => exact plain_append.trans (and_congr_right fun _ => List.forall_mem_singleton)
  | options record =>
      have hrecord : ∃ found, Fragment.options record = .options found := ⟨record, rfl⟩
      exact (and_congr_right fun _ => and_iff_right hrecord).trans (and_iff_left trivial).symm

/-- An element that is built step by step of plain parts is plain. -/
theorem plain_foldl_apply (builtin : Builtin) (steps : List (Step M))
    (h : ∀ step ∈ steps, step.Plain) : (steps.foldl apply (ofTag (.builtin builtin))).Plain := by
  refine List.foldlRecOn steps apply (plain_ofTag builtin) ?_
  intro element helement step hstep
  exact (plain_apply_iff element step).mpr ⟨helement, h step hstep⟩

/-! The steps and the elements of each tag, for the simplifier. -/

section Built

variable {element : Element M}

@[simp] theorem plain_attr {key : String} {value : Json} :
    (element.attr key value).Plain ↔ element.Plain :=
  (plain_apply_iff element (.attr key value)).trans (and_iff_left trivial)

@[simp] theorem plain_child {inner : Element M} :
    (element.child inner).Plain ↔ element.Plain ∧ inner.Plain :=
  plain_apply_iff element (.child inner)

@[simp] theorem plain_childElements {more : List (Element M)} :
    (element.childElements more).Plain ↔ element.Plain ∧ ∀ inner ∈ more, inner.Plain :=
  plain_apply_iff element (.children more)

@[simp] theorem plain_options {record : OptionsRecord} :
    (element.options record).Plain ↔ element.Plain :=
  (plain_apply_iff element (.options record)).trans (and_iff_left trivial)

@[simp] theorem plain_machine (id initial : String) : (machine id initial : Element M).Plain :=
  plain_foldl_apply .machine [.attr "id" (.str id), .attr "initial" (.str initial)]
    (by simp [Step.Plain])

@[simp] theorem plain_state (id : String) : (state id : Element M).Plain :=
  plain_foldl_apply .state [.attr "id" (.str id)] (by simp [Step.Plain])

@[simp] theorem plain_transition (event target : String) :
    (transition event target : Element M).Plain :=
  plain_foldl_apply .transition [.attr "event" (.str event), .attr "target" (.str target)]
    (by simp [Step.Plain])

@[simp] theorem plain_invoke (src : String) : (invoke src : Element M).Plain :=
  plain_foldl_apply .invoke [.attr "src" (.str src)] (by simp [Step.Plain])

@[simp] theorem plain_onDone : (onDone : Element M).Plain := plain_ofTag .onDone

end Built

end Element

/-! ## 3. What a plain child yields -/

namespace Compiler

variable {compiler : Compiler M}

/-- Every way in which a plain child yields a fragment. A machine yields none. -/
inductive PlainYield (compiler : Compiler M) : Child M → Fragment → Prop
  | options (record : OptionsRecord) :
      PlainYield compiler (.fragment (.options record)) (.options record)
  | state (attributes : Attributes) (children : List (Child M)) (fragments : List Fragment)
      (plain : Child.AllPlain children) (yields : List.Forall₂ compiler.Yields children fragments)
      (passes : Siblings.Passes Siblings.stateChecks compiler.settings.duplicates fragments) :
      PlainYield compiler (.element (.node (.builtin .state) attributes children))
        (.state (Compile.stateOf attributes fragments))
  | transition (attributes : Attributes) (children : List (Child M)) :
      PlainYield compiler (.element (.node (.builtin .transition) attributes children))
        (.transition (Compile.transition attributes).1 (Compile.transition attributes).2)
  | invoke (attributes : Attributes) (children : List (Child M)) (fragments : List Fragment)
      (plain : Child.AllPlain children)
      (yields : List.Forall₂ compiler.Yields children fragments) :
      PlainYield compiler (.element (.node (.builtin .invoke) attributes children))
        (.invoke (Compile.invoke attributes fragments).value)
  | onDone (attributes : Attributes) (children : List (Child M)) :
      PlainYield compiler (.element (.node (.builtin .onDone) attributes children))
        (.record (Compile.outcome "onDone" attributes))
  | onError (attributes : Attributes) (children : List (Child M)) :
      PlainYield compiler (.element (.node (.builtin .onError) attributes children))
        (.record (Compile.outcome "onError" attributes))

theorem Yields.plainYield {child : Child M} {fragment : Fragment}
    (h : compiler.Yields child fragment) (plain : child.Plain) :
    compiler.PlainYield child fragment := by
  cases child with
  | fragment found =>
      obtain ⟨record, rfl⟩ : ∃ record, found = .options record := plain
      cases (h : Fragment.options record = fragment)
      exact .options record
  | element element =>
      obtain ⟨tag, attributes, children⟩ := element
      obtain ⟨⟨builtin, rfl⟩, hchildren⟩ :
        (∃ builtin, tag = Tag.builtin builtin) ∧ Child.AllPlain children := plain
      obtain ⟨fragments, hyields, hcompile⟩ := result_evaluate_eq_ok_iff.mp h
      cases builtin with
      | machine =>
          -- a machine comes to a machine, never to a fragment
          obtain ⟨_, houtput⟩ := result_compile_machine_eq_ok_iff.mp hcompile
          exact absurd houtput nofun
      | state =>
          obtain ⟨hpass, houtput⟩ := result_compile_state_eq_ok_iff.mp hcompile
          cases houtput
          exact .state attributes children fragments hchildren hyields hpass
      | transition =>
          cases hcompile
          exact .transition attributes children
      | invoke =>
          cases hcompile
          exact .invoke attributes children fragments hchildren hyields
      | onDone =>
          cases hcompile
          exact .onDone attributes children
      | onError =>
          cases hcompile
          exact .onError attributes children

/-! ## 4. Fragments of one kind beside elements of one tag -/

/-- Evaluating the element gives the state. -/
def YieldsState (compiler : Compiler M) (element : Element M) (node : StateNode) : Prop :=
  (compiler.evaluate element).result = .ok (.fragment (.state node))

/-- A plain element that evaluates to a state is a state element. -/
theorem YieldsState.inv {element : Element M} {node : StateNode}
    (h : compiler.YieldsState element node) (plain : element.Plain) :
    ∃ attributes children fragments, element = .node (.builtin .state) attributes children ∧
      Child.AllPlain children ∧ List.Forall₂ compiler.Yields children fragments ∧
      Siblings.Passes Siblings.stateChecks compiler.settings.duplicates fragments ∧
      node = Compile.stateOf attributes fragments := by
  have hchild : compiler.Yields (.element element) (.state node) := h
  have hyield := hchild.plainYield plain
  cases hyield with
  | state attributes children fragments hchildren hyields hpass =>
      exact ⟨attributes, children, fragments, rfl, hchildren, hyields, hpass, rfl⟩

/-- The state that an element evaluates to has the id that the element spells. -/
theorem YieldsState.id_eq {element : Element M} {node : StateNode}
    (h : compiler.YieldsState element node) (plain : element.Plain) :
    node.id = element.key? "id" := by
  obtain ⟨attributes, children, fragments, rfl, -, -, -, rfl⟩ := h.inv plain
  rfl

variable {children : List (Child M)} {fragments : List Fragment}

/-- Views of children and of fragments that fit each other child by child fit list by list. -/
theorem forall₂_filterMap {α β : Type} {rel : α → β → Prop} {view : Child M → Option α}
    {view' : Fragment → Option β} (plain : Child.AllPlain children)
    (yields : List.Forall₂ compiler.Yields children fragments)
    (fits : ∀ child fragment, child.Plain → compiler.Yields child fragment →
      Option.Rel rel (view child) (view' fragment)) :
    List.Forall₂ rel (children.filterMap view) (fragments.filterMap view') := by
  -- plainness is carried along the two lists, since the views are asked of plain children only
  have hboth : List.Forall₂ (fun child fragment => child.Plain ∧ compiler.Yields child fragment)
      children fragments :=
    (List.forall₂_and_left children fragments).mpr ⟨Child.allPlain_iff.mp plain, yields⟩
  exact List.rel_filterMap (fun child fragment h => fits child fragment h.1 h.2) hboth

/-- The states among the fragments are what the state children evaluate to. -/
theorem forall₂_states (plain : Child.AllPlain children)
    (yields : List.Forall₂ compiler.Yields children fragments) :
    List.Forall₂ (fun element node => element.Plain ∧ compiler.YieldsState element node)
      (children.filterMap (Child.as? .state)) (Siblings.states fragments) := by
  refine forall₂_filterMap plain yields fun child fragment hplain h => ?_
  have hyield := h.plainYield hplain
  cases hyield with
  | state => exact .some ⟨hplain, h⟩
  | options | transition | invoke | onDone | onError => exact .none

/-- The transitions among the fragments are the transition children, each on its own. -/
theorem transitions_eq (plain : Child.AllPlain children)
    (yields : List.Forall₂ compiler.Yields children fragments) :
    Siblings.transitions fragments =
      (children.filterMap (Child.as? .transition)).map fun element =>
        Compile.transition element.attributes := by
  have h : List.Forall₂ (fun (element : Element M) declared =>
      Compile.transition element.attributes = declared)
      (children.filterMap (Child.as? .transition)) (Siblings.transitions fragments) := by
    refine forall₂_filterMap plain yields fun child fragment hplain h => ?_
    have hyield := h.plainYield hplain
    cases hyield with
    | transition => exact .some rfl
    | options | state | invoke | onDone | onError => exact .none
  rw [← List.forall₂_map_left_iff, List.forall₂_eq_eq_eq] at h
  exact h.symm

/-- The records among the fragments are the outcomes among the children. -/
theorem records_eq (plain : Child.AllPlain children)
    (yields : List.Forall₂ compiler.Yields children fragments) :
    Siblings.records fragments = (children.filterMap Child.outcome?).map fun entry => [entry] := by
  have h : List.Forall₂ (fun (entry : String × Json) record => [entry] = record)
      (children.filterMap Child.outcome?) (Siblings.records fragments) := by
    refine forall₂_filterMap plain yields fun child fragment hplain h => ?_
    have hyield := h.plainYield hplain
    cases hyield with
    | onDone | onError => exact .some rfl
    | options | state | transition | invoke => exact .none
  rw [← List.forall₂_map_left_iff, List.forall₂_eq_eq_eq] at h
  exact h.symm

/-- The invoke blocks among the fragments are those of the invoke children. -/
theorem invokes_eq (plain : Child.AllPlain children)
    (yields : List.Forall₂ compiler.Yields children fragments) :
    Siblings.invokes fragments =
      (children.filterMap (Child.as? .invoke)).map Element.invokeBlock := by
  have h : List.Forall₂ (fun (element : Element M) block => element.invokeBlock = block)
      (children.filterMap (Child.as? .invoke)) (Siblings.invokes fragments) := by
    refine forall₂_filterMap plain yields fun child fragment hplain h => ?_
    have hyield := h.plainYield hplain
    cases hyield with
    | invoke attributes children fragments hchildren hyields =>
        refine .some ?_
        -- the records are united first and then put over the attributes; it could be one run
        show attributes.extend (children.filterMap Child.outcome?) =
          attributes.extend ((Siblings.records fragments).foldl OrderedMap.extend [])
        rw [OrderedMap.foldl_extend, ← OrderedMap.ofBindings, OrderedMap.extend_ofBindings,
          records_eq hchildren hyields, ← List.flatMap_def, List.flatMap_singleton']
    | options | state | transition | onDone | onError => exact .none
  rw [← List.forall₂_map_left_iff, List.forall₂_eq_eq_eq] at h
  exact h.symm

/-- The ids of the states among the fragments are those of the state children. -/
theorem stateIds_eq (plain : Child.AllPlain children)
    (yields : List.Forall₂ compiler.Yields children fragments) :
    Siblings.stateIds fragments =
      (children.filterMap (Child.as? .state)).map (Element.key? "id") := by
  have h := (forall₂_states plain yields).imp fun element node h => (h.2.id_eq h.1).symm
  rw [← List.forall₂_map_right_iff, ← List.forall₂_map_left_iff, List.forall₂_eq_eq_eq] at h
  exact h.symm

end Compiler

end Statechart
