/-
`Proofs/Kinds.lean` -- the category of a compiled state, told from its markup.

The category is read off the compiled state, from the attributes that are left to it and from its
table of states. Compiling takes away none of the attributes that decide, and there is a table
exactly where a state among the children has an id. So the category can be told before compiling: a
`type` decides, whatever it is; without one the first marker does; and without either it counts
whether a child can be found under an id.
-/
import Statechart.Proofs.Folds
import Statechart.Proofs.Success
import Statechart.StateNode.Kind
import Mathlib.Tactic.SplitIfs

set_option autoImplicit false

namespace Statechart

/-! ## 1. Categories by their names -/

/-- The category that a `type` names. -/
def namedKind? (type : Json) : Option StateKind :=
  if type = .str "atomic" then some .atomic
  else if type = .str "compound" then some .compound
  else if type = .str "parallel" then some .parallel
  else if type = .str "final" then some .final
  else if type = .str "history" then some .history
  else none

/-- A `type` that is a string is looked up among the names, and any other names nothing. -/
theorem bind_ofName?_eq_namedKind? (type : Json) :
    type.string?.bind StateKind.ofName? = namedKind? type := by
  rw [namedKind?]
  split_ifs with hatomic hcompound hparallel hfinal hhistory
  · rw [hatomic]
    rfl
  · rw [hcompound]
    rfl
  · rw [hparallel]
    rfl
  · rw [hfinal]
    rfl
  · rw [hhistory]
    rfl
  · cases type with
    | str name =>
        refine List.find?_eq_none.mpr fun kind _ hkind => ?_
        have hname : kind.name = name := by simpa using hkind
        subst hname
        cases kind with
        | atomic => exact hatomic rfl
        | compound => exact hcompound rfl
        | parallel => exact hparallel rfl
        | final => exact hfinal rfl
        | history => exact hhistory rfl
    | null | bool | num | arr | obj => rfl

namespace StateNode

/-- The markers are asked one after the other. -/
theorem find?_isMarked_cons {node : StateNode} {attributes : Attributes} {name : String}
    (h : OrderedMap.get? node.attributes name = attributes.get? name) (kind : StateKind)
    (hname : kind.name = name) (rest : List StateKind) :
    (kind :: rest).find? node.isMarked
      = if attributes.get? name = some (.bool true) then some kind
        else rest.find? node.isMarked := by
  have hmarked : node.isMarked kind = true ↔ attributes.get? name = some (.bool true) := by
    rw [isMarked, hname, h, beq_iff_eq]
  by_cases hmark : attributes.get? name = some (.bool true)
  · rw [if_pos hmark, List.find?_cons_of_pos (hmarked.mpr hmark)]
  · rw [if_neg hmark, List.find?_cons_of_neg (fun hkind => hmark (hmarked.mp hkind))]

/-- A state has states of its own to speak of if it is of one of three categories. -/
theorem hasChildStates_iff (node : StateNode) :
    node.hasChildStates = true ↔
      ∃ kind ∈ [StateKind.compound, .parallel, .history], node.kind? = some kind := by
  rw [hasChildStates]
  cases node.kind? with
  | none => simp
  | some kind => cases kind <;> simp [StateKind.hasChildStates]

end StateNode

/-! ## 2. Compiled states -/

namespace Compile

/-- The category that attributes and children give a state. -/
def describedKind? (attributes : Attributes) (children : List Fragment) : Option StateKind :=
  match attributes.get? "type" with
  | some type => namedKind? type
  | none =>
      some <|
        if attributes.get? "compound" = some (.bool true) then .compound
        else if attributes.get? "parallel" = some (.bool true) then .parallel
        else if attributes.get? "final" = some (.bool true) then .final
        else if attributes.get? "history" = some (.bool true) then .history
        else if ∃ node ∈ Siblings.states children, node.id.isSome then .compound
        else .atomic

/-- What a fold stands in for goes by the name of the fold. -/
theorem eq_of_mem_folded {α : Type} {name key : String} {value : Option α}
    (h : name ∈ folded key value) : name = key := by
  rw [folded] at h
  split at h
  · exact List.mem_singleton.mp h
  · exact absurd h List.not_mem_nil

/-- A state keeps what it does not take for itself and what its children do not stand in for. -/
theorem get?_attributes_stateOf {name : String}
    (h : name ∉ stateAttributes ++ ["on", "invoke", "states"]) (attributes : Attributes)
    (children : List Fragment) :
    OrderedMap.get? (stateOf attributes children).attributes name = attributes.get? name := by
  have hattributes : (stateOf attributes children).attributes = attributes.without
      (stateAttributes ++ folded "on" (Siblings.mergeTransitions children).value
        ++ folded "invoke" (Siblings.firstInvoke? children)
        ++ folded "states" (Siblings.mergeStates children).value) := rfl
  rw [hattributes, OrderedMap.get?_without, if_neg]
  intro hmem
  simp only [List.mem_append, or_assoc] at hmem
  refine h (List.mem_append.mpr ?_)
  rcases hmem with hown | hon | hinvoke | hstates
  · exact .inl hown
  · rw [eq_of_mem_folded hon]
    exact .inr (by decide)
  · rw [eq_of_mem_folded hinvoke]
    exact .inr (by decide)
  · rw [eq_of_mem_folded hstates]
    exact .inr (by decide)

/-- A state is compound by its structure exactly where a state among its children has an id. -/
theorem structuralKind_stateOf (attributes : Attributes) (children : List Fragment) :
    (stateOf attributes children).structuralKind
      = if ∃ node ∈ Siblings.states children, node.id.isSome then .compound else .atomic := by
  have hstates : (stateOf attributes children).states = (Siblings.mergeStates children).value := rfl
  rw [StateNode.structuralKind, hstates]
  by_cases h : ∃ node ∈ Siblings.states children, node.id.isSome
  · obtain ⟨table, htable⟩ := Siblings.exists_mergeStates_of_id h
    rw [if_pos h, htable]
    cases table with
    | nil => exact absurd htable (Siblings.mergeStates_ne_some_nil children)
    | cons entry rest => rfl
  · rw [if_neg h, Siblings.mergeStates_eq_none]
    intro node hnode
    exact Option.not_isSome_iff_eq_none.mp fun hid => h ⟨node, hnode, hid⟩

/-- The category of a compiled state is the one that its attributes and children give it. -/
theorem kind?_stateOf (attributes : Attributes) (children : List Fragment) :
    (stateOf attributes children).kind? = describedKind? attributes children := by
  rw [StateNode.kind?, describedKind?, get?_attributes_stateOf (by decide)]
  cases attributes.get? "type" with
  | some type => exact bind_ofName?_eq_namedKind? type
  | none =>
      -- no marker is among what a state takes for itself
      have hmarker : ∀ name ∈ ["compound", "parallel", "final", "history"],
          OrderedMap.get? (stateOf attributes children).attributes name = attributes.get? name := by
        intro name hname
        refine get?_attributes_stateOf ?_ attributes children
        revert name
        decide
      rw [StateKind.markers,
        StateNode.find?_isMarked_cons (hmarker "compound" (by decide)) .compound rfl,
        StateNode.find?_isMarked_cons (hmarker "parallel" (by decide)) .parallel rfl,
        StateNode.find?_isMarked_cons (hmarker "final" (by decide)) .final rfl,
        StateNode.find?_isMarked_cons (hmarker "history" (by decide)) .history rfl,
        List.find?_nil, structuralKind_stateOf]
      split_ifs <;> rfl

end Compile

/-! ## 3. The category and the states of its own -/

/-- **What category a compiled state is of.** Under every policy, a state that compiles is of the
category that its attributes and its children tell, and it has states of its own to speak of exactly
where that is compound, parallel or history. -/
theorem kind_of_state {policy : Policy} {attributes : Attributes} {children : List Fragment}
    {node : StateNode} (h : (Compile.state policy attributes children).result = .ok node) :
    node.kind? = Compile.describedKind? attributes children ∧
      (node.hasChildStates = true ↔
        ∃ kind ∈ [StateKind.compound, .parallel, .history],
          Compile.describedKind? attributes children = some kind) := by
  obtain ⟨-, rfl⟩ := Compile.result_state_eq_ok_iff.mp h
  have hkind := Compile.kind?_stateOf attributes children
  refine ⟨hkind, ?_⟩
  rw [StateNode.hasChildStates_iff, hkind]

/-- Markup of a state that claims more than it gets: a marker that is text, two that count, and
states of its own that stand in an attribute or have no id. -/
def claimingAttributes : Attributes :=
  [("id", .str "a"), ("compound", .str "true"), ("history", .bool true), ("final", .bool true),
    ("states", .obj [("b", .obj [])])]

/-- The first marker that is `true` decides, and a final state has no states to speak of. -/
theorem kind_of_state_claiming :
    (Compile.state .warn claimingAttributes [.state {}]).result
        = .ok (Compile.stateOf claimingAttributes [.state {}]) ∧
      (Compile.stateOf claimingAttributes [.state {}]).kind? = some .final ∧
      (Compile.stateOf claimingAttributes [.state {}]).hasChildStates = false := by
  have hok : (Compile.state .warn claimingAttributes [.state {}]).result
      = .ok (Compile.stateOf claimingAttributes [.state {}]) := rfl
  have hdescribed : Compile.describedKind? claimingAttributes [.state {}] = some .final := by
    decide
  obtain ⟨hkind, hstates⟩ := kind_of_state hok
  refine ⟨hok, hkind.trans hdescribed, ?_⟩
  rw [Bool.eq_false_iff, Ne, hstates, hdescribed]
  decide

end Statechart
