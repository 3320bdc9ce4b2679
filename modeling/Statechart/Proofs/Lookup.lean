/-
`Proofs/Lookup.lean` -- looking up a state by its path, in the machine and in the markup.

In the markup a path is resolved from the top: each segment leads to the last state child whose id
spells it. In the compiled machine the same path is walked through the tables of states. Over plain
markup whose states fill the machine's table the two agree: they end at the same place, and what the
machine holds there is what the element evaluates to.
-/
import Statechart.Proofs.Folds
import Statechart.Proofs.Markup

set_option autoImplicit false

namespace Statechart

variable {M : Type}

/-! ## 1. Paths in markup -/

namespace Element

/-- The last state child whose id spells `id`. -/
def lastState? (element : Element M) (id : String) : Option (Element M) :=
  ((element.childrenOf .state).filter fun state => state.key? "id" == some id).getLast?

/-- The element at the end of a path of ids, from the top. -/
def resolve? : Element M → List String → Option (Element M)
  | element, [] => some element
  | element, id :: path => (element.lastState? id).bind fun state => state.resolve? path

end Element

/-- A longer path goes on in the states of the state that its first segment leads to. -/
theorem StateTable.lookup?_cons (table : Option StateTable) (id : String) {path : List String}
    (h : path ≠ []) :
    lookup? table (id :: path)
      = (table.bind (OrderedMap.get? · id)).bind fun node => lookup? node.states path := by
  rw [lookup?]
  · cases table.bind (OrderedMap.get? · id) with
    | none => rfl
    | some node => rfl
  · exact h

/-! ## 2. One level -/

/-- Lists that fit each other have fitting first hits. -/
theorem forall₂_find? {α β : Type} {rel : α → β → Prop} {p : α → Bool} {q : β → Bool}
    {left : List α} {right : List β} (h : List.Forall₂ rel left right)
    (hpq : ∀ a b, rel a b → p a = q b) :
    Option.Rel (fun a b => rel a b ∧ q b = true) (left.find? p) (right.find? q) := by
  induction h with
  | nil => exact .none
  | @cons a b _ _ hab _ ih =>
      by_cases hq : q b = true
      · rw [List.find?_cons_of_pos (hpq a b hab ▸ hq), List.find?_cons_of_pos hq]
        exact .some ⟨hab, hq⟩
      · rw [List.find?_cons_of_neg (hpq a b hab ▸ hq), List.find?_cons_of_neg hq]
        exact ih

namespace Compiler

variable {compiler : Compiler M} {children : List (Child M)} {fragments : List Fragment}

/-- Under an id, the table that the children fold to holds what the last state child with that id
evaluates to. -/
theorem rel_lastState? (tag : Tag M) (attributes : Attributes) (plain : Child.AllPlain children)
    (yields : List.Forall₂ compiler.Yields children fragments) (id : String) :
    Option.Rel (fun element node =>
        (element.Plain ∧ compiler.YieldsState element node) ∧ (node.id == some id) = true)
      ((Element.node tag attributes children).lastState? id)
      ((Siblings.mergeStates fragments).value.bind (OrderedMap.get? · id)) := by
  -- the last of a list is the first from behind, on both sides
  rw [Siblings.get?_mergeStates, Element.lastState?, List.getLast?_filter]
  exact forall₂_find? (List.forall₂_reverse_iff.mpr (forall₂_states plain yields))
    fun element node h => by rw [h.2.id_eq h.1]

/-! ## 3. Whole paths -/

/-- Walking the table that the children fold to ends where the path ends in the markup. -/
theorem rel_resolve? {path : List String} (hpath : path ≠ []) :
    ∀ {tag : Tag M} {attributes : Attributes} {children : List (Child M)}
      {fragments : List Fragment}, Child.AllPlain children →
      List.Forall₂ compiler.Yields children fragments →
      Option.Rel (fun element node =>
          (element.Plain ∧ compiler.YieldsState element node) ∧ node.id = path.getLast?)
        ((Element.node tag attributes children).resolve? path)
        (StateTable.lookup? (Siblings.mergeStates fragments).value path) := by
  induction path with
  | nil => exact absurd rfl hpath
  | cons id rest ih =>
      intro tag attributes children fragments plain yields
      have hfirst := rel_lastState? tag attributes plain yields id
      cases rest with
      | nil =>
          rw [Element.resolve?, StateTable.lookup?]
          generalize (Element.node tag attributes children).lastState? id = element? at hfirst ⊢
          generalize (Siblings.mergeStates fragments).value.bind _ = node? at hfirst ⊢
          cases hfirst with
          | none => exact .none
          | some h => exact .some ⟨h.1, by simpa using h.2⟩
      | cons next rest =>
          rw [Element.resolve?, StateTable.lookup?_cons _ _ (List.cons_ne_nil next rest)]
          generalize (Element.node tag attributes children).lastState? id = element? at hfirst ⊢
          generalize (Siblings.mergeStates fragments).value.bind _ = node? at hfirst ⊢
          cases hfirst with
          | none => exact .none
          | some h =>
              -- the walk goes on inside the state, in the table of its own children
              obtain ⟨attributes, children, fragments, rfl, hplain, hyields, -, rfl⟩ :=
                h.1.2.inv h.1.1
              rw [List.getLast?_cons_cons]
              exact ih (List.cons_ne_nil next rest) hplain hyields

/-- What a plain tree that builds consists of. -/
theorem inv_of_build {root : Element M} {machine : M} (plain : root.Plain)
    (built : (compiler.build root).result = .ok machine) :
    ∃ attributes children fragments, root = .node (.builtin .machine) attributes children ∧
      Child.AllPlain children ∧ List.Forall₂ compiler.Yields children fragments ∧
      Siblings.Passes Siblings.machineChecks compiler.settings.duplicates
        (SplitChildren.withoutOptions fragments) ∧
      machine = compiler.construct
        (Compile.machineOf compiler.run compiler.patcher attributes fragments).config
        (Compile.machineOf compiler.run compiler.patcher attributes fragments).options := by
  have heval := result_build_eq_ok_iff.mp built
  obtain ⟨tag, attributes, children⟩ := root
  obtain ⟨⟨builtin, rfl⟩, hchildren⟩ :
    (∃ builtin, tag = Tag.builtin builtin) ∧ Child.AllPlain children := plain
  obtain ⟨fragments, hyields, hcompile⟩ := result_evaluate_eq_ok_iff.mp heval
  obtain rfl := eq_machine_of_compile hcompile
  obtain ⟨hpass, houtput⟩ := result_compile_machine_eq_ok_iff.mp hcompile
  cases houtput
  exact ⟨attributes, children, fragments, rfl, hchildren, hyields, hpass, rfl⟩

/-- State children fold to a table if one of them has an id. -/
theorem isSome_mergeStates (plain : Child.AllPlain children)
    (yields : List.Forall₂ compiler.Yields children fragments)
    (keyed : ∃ state ∈ children.filterMap (Child.as? .state), (state.key? "id").isSome) :
    (Siblings.mergeStates fragments).value.isSome := by
  obtain ⟨state, hstate, hid⟩ := keyed
  obtain ⟨id, hid⟩ := Option.isSome_iff_exists.mp hid
  -- the last state child of that id is in the table, so there is a table
  have hlast : ((Element.node (.builtin .machine) [] children).lastState? id).isSome := by
    rw [Element.lastState?, List.getLast?_isSome]
    exact List.ne_nil_of_mem (List.mem_filter.mpr ⟨hstate, by simp [hid]⟩)
  have hrel := rel_lastState? (.builtin .machine) [] plain yields id
  obtain ⟨element, helement⟩ := Option.isSome_iff_exists.mp hlast
  rw [helement] at hrel
  obtain ⟨node, hnode, -⟩ := exists_of_rel_some hrel
  obtain ⟨table, htable, -⟩ := Option.bind_eq_some_iff.mp hnode
  exact Option.isSome_iff_exists.mpr ⟨table, htable⟩

/-- The machine's table is the one that its state children fold to, if one of them has an id. -/
theorem states_machineOf {attributes : Attributes} (plain : Child.AllPlain children)
    (yields : List.Forall₂ compiler.Yields children fragments)
    (keyed : ∃ state ∈ children.filterMap (Child.as? .state), (state.key? "id").isSome)
    (run : Nat) (patcher : Patcher) :
    (Compile.machineOf run patcher attributes fragments).config.states
      = (Siblings.mergeStates fragments).value := by
  obtain ⟨table, htable⟩ :=
    Option.isSome_iff_exists.mp (isSome_mergeStates plain yields keyed)
  show Compile.machineStates? (Siblings.mergeStates (SplitChildren.withoutOptions fragments)).value
    _ = _
  rw [Siblings.mergeStates_withoutOptions, htable]
  rfl

end Compiler

/-! ## 4. The machine and its markup -/

section Machine

variable {compiler : Compiler Blueprint} {root : Element Blueprint} {machine : Blueprint}

/-- Where states fill the machine's table, a path that is not empty ends at the same place in the
markup and in the machine. -/
theorem Compiler.rel_state? (blueprint : compiler.construct = Blueprint.mk) (plain : root.Plain)
    (keyed : ∃ state ∈ root.childrenOf .state, (state.key? "id").isSome)
    (built : (compiler.build root).result = .ok machine) {path : List String} (hpath : path ≠ []) :
    Option.Rel (fun element node =>
        (element.Plain ∧ compiler.YieldsState element node) ∧ node.id = path.getLast?)
      (root.resolve? path) (machine.config.state? path) := by
  obtain ⟨attributes, children, fragments, rfl, hplain, hyields, -, rfl⟩ := inv_of_build plain built
  rw [blueprint, MachineConfig.state?, states_machineOf hplain hyields keyed]
  exact rel_resolve? hpath hplain hyields

/-- Where states fill the machine's table, the paths that lead somewhere are those that resolve. -/
theorem Compiler.isSome_state?_iff (blueprint : compiler.construct = Blueprint.mk)
    (plain : root.Plain) (keyed : ∃ state ∈ root.childrenOf .state, (state.key? "id").isSome)
    (built : (compiler.build root).result = .ok machine) (path : List String) :
    (machine.config.state? path).isSome ↔ path ≠ [] ∧ (root.resolve? path).isSome := by
  by_cases hpath : path = []
  · subst hpath
    exact ⟨nofun, fun h => absurd rfl h.1⟩
  · rw [← isSome_eq_of_rel (rel_state? blueprint plain keyed built hpath)]
    exact ⟨fun h => ⟨hpath, h⟩, fun h => h.2⟩

end Machine

/-- **Looking up a path.** A path leads to a state of the machine exactly when it is not empty and
resolves in the markup, from each level to the last state child of the id. What it leads to is what
that element evaluates to on its own, under the last id of the path. -/
theorem state?_iff_resolve? (compiler : Compiler Blueprint)
    (blueprint : compiler.construct = Blueprint.mk) {root : Element Blueprint} (plain : root.Plain)
    (keyed : ∃ state ∈ root.childrenOf .state, (state.key? "id").isSome) {machine : Blueprint}
    (built : (compiler.build root).result = .ok machine) (path : List String) :
    ((machine.config.state? path).isSome ↔ path ≠ [] ∧ (root.resolve? path).isSome) ∧
      ∀ node, machine.config.state? path = some node →
        ∃ element, root.resolve? path = some element ∧
          (compiler.evaluate element).result = .ok (.fragment (.state node)) ∧
          node.id = path.getLast? := by
  have hiff := Compiler.isSome_state?_iff blueprint plain keyed built path
  refine ⟨hiff, fun node hnode => ?_⟩
  have hpath : path ≠ [] := (hiff.mp (by rw [hnode]; rfl)).1
  have hrel := Compiler.rel_state? blueprint plain keyed built hpath
  rw [hnode] at hrel
  generalize root.resolve? path = element? at hrel ⊢
  cases hrel with
  | @some element _ h => exact ⟨element, rfl, h.1.2, h.2⟩

/-- A state without an id, two states of one id, and below the second one a state whose id is no
string. -/
def shadowedMarkup : Element Blueprint :=
  (Element.machine "m" "a").childElements
    [.ofTag (.builtin .state), (Element.state "a").child (.state "x"),
      (Element.state "a").child ((Element.ofTag (.builtin .state)).attr "id" (.bool true))]

theorem state?_shadowedMarkup :
    ∃ machine, (Compiler.blueprint.build shadowedMarkup).result = .ok machine ∧
      (machine.config.state? ["a", "true"]).isSome ∧ machine.config.state? ["a", "x"] = none := by
  have hplain : shadowedMarkup.Plain := by simp [shadowedMarkup]
  have hkeyed : ∃ state ∈ shadowedMarkup.childrenOf .state, (state.key? "id").isSome :=
    ⟨(Element.state "a").child (.state "x"), .tail _ (.head _), rfl⟩
  have hpath := fun path => state?_iff_resolve? Compiler.blueprint rfl hplain hkeyed rfl path
  refine ⟨_, rfl, (hpath _).1.mpr ⟨List.cons_ne_nil _ _, rfl⟩, ?_⟩
  exact Option.not_isSome_iff_eq_none.mp fun h => absurd ((hpath _).1.mp h).2 Bool.false_ne_true

end Statechart
