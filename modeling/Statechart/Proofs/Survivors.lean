/-
`Proofs/Survivors.lean` -- which siblings survive the folds of their parent.

A parent keys its states and transitions, takes one invoke block and, if it is a machine, a leading
options record. So from the roles of siblings alone one can tell which of them have no say in what
the parent compiles to. Those that have survive: they pass every check, and folding them gives what
folding all of them gives, up to the order of tables.
-/
import Statechart.Proofs.Equality

set_option autoImplicit false

namespace Statechart

/-! ## 1. Roles -/

/-- What a child is to its parent. -/
inductive Role where
  | state (id : Option String)
  | transition (event : Option String)
  | invoke
  | options
  | other
  deriving DecidableEq

namespace Role

/-- Whether a state loses a child, by its role and the roles of the siblings before and after it. -/
def lostInState (before : List Role) (role : Role) (after : List Role) : Bool :=
  match role with
  | .state none | .transition none => true
  | .state (some _) | .transition (some _) => after.contains role
  | .invoke => before.contains .invoke
  | .options | .other => false

/-- Whether a machine loses a child, by its role and the roles of the siblings before and after
it. -/
def lostInMachine (before : List Role) (role : Role) (after : List Role) : Bool :=
  match role with
  | .state none => true
  | .state (some _) => after.contains role
  | .options => !before.isEmpty
  | .transition _ | .invoke | .other => false

variable {α β γ : Type}

/-- The siblings that are not lost. `before` holds the roles of those that came before. -/
def survivors (lost : List Role → Role → List Role → Bool) (role : α → Role) :
    List Role → List α → List α
  | _, [] => []
  | before, sibling :: rest =>
      if lost before (role sibling) (rest.map role) then
        survivors lost role (role sibling :: before) rest
      else sibling :: survivors lost role (role sibling :: before) rest

/-! ## 2. Survivors of siblings that fit each other -/

variable {lost : List Role → Role → List Role → Bool} {role : α → Role} {role' : β → Role}

theorem survivors_sublist (before : List Role) (siblings : List α) :
    (survivors lost role before siblings).Sublist siblings := by
  induction siblings generalizing before with
  | nil => exact List.Sublist.slnil
  | cons sibling rest ih =>
      rw [survivors]
      split
      · exact (ih _).cons sibling
      · exact (ih _).cons_cons sibling

/-- Where nothing is lost, all survive. -/
theorem survivors_of_never (before : List Role) (siblings : List α) :
    survivors (fun _ _ _ => false) role before siblings = siblings := by
  induction siblings generalizing before with
  | nil => rfl
  | cons sibling rest ih => exact congrArg (sibling :: ·) (ih _)

/-- Siblings that fit each other and have the same roles have survivors that fit each other. -/
theorem forall₂_survivors {rel : α → β → Prop} {left : List α} {right : List β}
    (h : List.Forall₂ (fun a b => rel a b ∧ role a = role' b) left right) (before : List Role) :
    List.Forall₂ rel (survivors lost role before left) (survivors lost role' before right) := by
  induction h generalizing before with
  | nil => exact .nil
  | @cons a b left right hab hrest ih =>
      have hroles : left.map role = right.map role' := by
        have hmap := hrest.imp fun _ _ h => h.2
        rwa [← List.forall₂_map_right_iff, ← List.forall₂_map_left_iff (f := role),
          List.forall₂_eq_eq_eq] at hmap
      -- with the same roles around them, both are lost or none is
      rw [survivors, survivors, ← hab.2, ← hroles]
      split
      · exact ih _
      · exact .cons hab.1 (ih _)

/-! ## 3. Survivors with a key -/

/-- The siblings with the roles that `named` gives are keyed: the role of such a sibling is the key
of its entry, and it is lost where it has no key or a later sibling has the same. -/
structure Keyed (lost : List Role → Role → List Role → Bool) (role : α → Role)
    (named : Option String → Role) (keyed? : α → Option (Option String × γ)) : Prop where
  role_iff : ∀ sibling key, role sibling = named key ↔ ∃ value, keyed? sibling = some (key, value)
  lost_none : ∀ before after, lost before (named none) after = true
  lost_some : ∀ before after key, lost before (named (some key)) after =
    after.contains (named (some key))

namespace Keyed

variable {named : Option String → Role} {keyed? : α → Option (Option String × γ)}

/-- A keyed sibling is lost exactly where a later one has its key. -/
theorem lost_iff (h : Keyed lost role named keyed?) {sibling : α} {key : String} {value : γ}
    (hentry : keyed? sibling = some (some key, value)) (before : List Role) (rest : List α) :
    lost before (role sibling) (rest.map role) = true ↔
      some key ∈ (rest.filterMap keyed?).map Prod.fst := by
  rw [(h.role_iff sibling (some key)).mpr ⟨value, hentry⟩, h.lost_some, List.contains_iff_mem,
    List.mem_map, List.mem_map]
  constructor
  · rintro ⟨later, hlater, hrole⟩
    obtain ⟨value', hentry'⟩ := (h.role_iff later (some key)).mp hrole
    exact ⟨_, List.mem_filterMap.mpr ⟨later, hlater, hentry'⟩, rfl⟩
  · rintro ⟨⟨_, value'⟩, hmem, rfl⟩
    obtain ⟨later, hlater, hentry'⟩ := List.mem_filterMap.mp hmem
    exact ⟨later, hlater, (h.role_iff later _).mpr ⟨value', hentry'⟩⟩

/-- Survivors have keys, and different ones. -/
theorem uniqueKeys (h : Keyed lost role named keyed?) (before : List Role) (siblings : List α) :
    Siblings.UniqueKeys
      (((survivors lost role before siblings).filterMap keyed?).map Prod.fst) := by
  induction siblings generalizing before with
  | nil => exact Siblings.uniqueKeys_nil
  | cons sibling rest ih =>
      have hrest := ih (role sibling :: before)
      rw [survivors]
      split
      · exact hrest
      · rename_i hkept
        cases hentry : keyed? sibling with
        | none =>
            rw [List.filterMap_cons_none hentry]
            exact hrest
        | some entry =>
            rw [List.filterMap_cons_some hentry]
            obtain ⟨key?, value⟩ := entry
            cases key? with
            | none =>
                refine absurd ?_ hkept
                rw [(h.role_iff sibling none).mpr ⟨value, hentry⟩]
                exact h.lost_none _ _
            | some key =>
                refine hrest.cons ?_
                intro hmem
                -- a survivor with this key would be a later sibling with this key
                have hsublist : (survivors lost role (role sibling :: before) rest).Sublist rest :=
                  survivors_sublist _ rest
                have hlater := ((hsublist.filterMap keyed?).map Prod.fst).subset hmem
                exact hkept ((h.lost_iff hentry before rest).mpr hlater)

/-- The last entry of a key survives. -/
theorem find?_survivors (h : Keyed lost role named keyed?) (before : List Role)
    (siblings : List α) (key : String) :
    (((survivors lost role before siblings).filterMap keyed?).reverse.find? fun entry =>
        entry.1 == some key)
      = (siblings.filterMap keyed?).reverse.find? fun entry => entry.1 == some key := by
  induction siblings generalizing before with
  | nil => rfl
  | cons sibling rest ih =>
      have hrest := ih (role sibling :: before)
      rw [survivors]
      cases hentry : keyed? sibling with
      | none =>
          rw [List.filterMap_cons_none hentry]
          split
          · exact hrest
          · rw [List.filterMap_cons_none hentry]
            exact hrest
      | some entry =>
          rw [List.filterMap_cons_some hentry, List.reverse_cons, List.find?_append]
          split
          · -- nothing is found in what is lost, or else something is found behind it
            rename_i hlost
            rw [hrest]
            obtain ⟨key?, value⟩ := entry
            by_cases hkey : key? = some key
            · subst hkey
              obtain ⟨later, hlater, hsame⟩ :=
                List.mem_map.mp ((h.lost_iff hentry before rest).mp hlost)
              have hfound : ((rest.filterMap keyed?).reverse.find? fun entry =>
                  entry.1 == some key).isSome :=
                List.find?_isSome.mpr ⟨later, List.mem_reverse.mpr hlater, by simp [hsame]⟩
              rw [Option.or_of_isSome hfound]
            · rw [List.find?_cons_of_neg (by simpa using hkey), List.find?_nil, Option.or_none]
          · rw [List.filterMap_cons_some hentry, List.reverse_cons, List.find?_append, hrest]

end Keyed

end Role

/-! ## 4. Fragments that survive -/

namespace Fragment

/-- What a fragment is to the parent that folds it. -/
def role : Fragment → Role
  | .state node => .state node.id
  | .transition event _ => .transition event
  | .invoke _ => .invoke
  | .options _ => .options
  | .record _ => .other

/-- The state and the id under which it is keyed, if the fragment is one. -/
def keyedState? (fragment : Fragment) : Option (Option String × StateNode) :=
  fragment.state?.map fun node => (node.id, node)

theorem role_eq_state_iff (fragment : Fragment) (key : Option String) :
    fragment.role = .state key ↔ ∃ node, fragment.keyedState? = some (key, node) := by
  cases fragment with
  | state node =>
      constructor
      · intro h
        cases h
        exact ⟨node, rfl⟩
      · rintro ⟨_, h⟩
        cases h
        rfl
  | transition | invoke | record | options => exact ⟨nofun, nofun⟩

theorem role_eq_transition_iff (fragment : Fragment) (key : Option String) :
    fragment.role = .transition key ↔
      ∃ declared, fragment.transition? = some (key, declared) := by
  cases fragment with
  | transition event declared =>
      constructor
      · intro h
        cases h
        exact ⟨declared, rfl⟩
      · rintro ⟨_, h⟩
        cases h
        rfl
  | state | invoke | record | options => exact ⟨nofun, nofun⟩

end Fragment

namespace Role

/-- A state keys its states. -/
theorem keyed_states_inState : Keyed lostInState Fragment.role .state Fragment.keyedState? :=
  ⟨Fragment.role_eq_state_iff, fun _ _ => rfl, fun _ _ _ => rfl⟩

/-- A state keys its transitions. -/
theorem keyed_transitions_inState :
    Keyed lostInState Fragment.role .transition Fragment.transition? :=
  ⟨Fragment.role_eq_transition_iff, fun _ _ => rfl, fun _ _ _ => rfl⟩

/-- A machine keys its states. -/
theorem keyed_states_inMachine : Keyed lostInMachine Fragment.role .state Fragment.keyedState? :=
  ⟨Fragment.role_eq_state_iff, fun _ _ => rfl, fun _ _ _ => rfl⟩

/-- In a state the first invoke block survives. -/
theorem invokes_survivors (before : List Role) (fragments : List Fragment) :
    Siblings.invokes (survivors lostInState Fragment.role before fragments)
      = if .invoke ∈ before then [] else (Siblings.invokes fragments).take 1 := by
  induction fragments generalizing before with
  | nil =>
      rw [survivors]
      split <;> rfl
  | cons fragment rest ih =>
      have hrest := ih (fragment.role :: before)
      rw [survivors]
      cases fragment with
      | invoke block =>
          -- whether or not this one is the first, none behind it survives
          rw [Fragment.role, if_pos List.mem_cons_self] at hrest
          by_cases hbefore : Role.invoke ∈ before
          · rw [if_pos hbefore, if_pos (by simpa [lostInState, Fragment.role] using hbefore)]
            exact hrest
          · rw [if_neg hbefore, if_neg (by simpa [lostInState, Fragment.role] using hbefore)]
            exact congrArg (block :: ·) hrest
      | state | transition | record | options =>
          simp only [Fragment.role, List.mem_cons, reduceCtorEq, false_or] at hrest
          generalize lostInState before _ _ = lost
          cases lost with
          | true => exact hrest
          | false => exact hrest

/-- In a machine no options record survives behind another child. -/
theorem options?_of_mem_survivors {before : List Role} (hbefore : before ≠ [])
    {fragments : List Fragment} {fragment : Fragment}
    (h : fragment ∈ survivors lostInMachine Fragment.role before fragments) :
    fragment.options? = none := by
  induction fragments generalizing before with
  | nil => exact absurd h List.not_mem_nil
  | cons first rest ih =>
      rw [survivors] at h
      split at h
      · exact ih (List.cons_ne_nil _ _) h
      · rename_i hkept
        rcases List.mem_cons.mp h with rfl | hmem
        · cases fragment with
          | options record =>
              refine absurd ?_ hkept
              simpa [lostInMachine, Fragment.role] using hbefore
          | state | transition | invoke | record => rfl
        · exact ih (List.cons_ne_nil _ _) hmem

/-- In a machine the options record that leads survives, and none comes to lead instead. -/
theorem leading?_survivors (fragments : List Fragment) :
    SplitChildren.leading? (survivors lostInMachine Fragment.role [] fragments)
      = SplitChildren.leading? fragments := by
  cases fragments with
  | nil => rfl
  | cons first rest =>
      rw [survivors]
      split
      · -- what leads is lost only if it is a state, and then nothing leads
        rename_i hlost
        have hfirst : first.options? = none := by
          cases first with
          | options record => exact absurd hlost nofun
          | state | transition | invoke | record => rfl
        show _ = first.options?
        rw [hfirst, SplitChildren.leading?]
        cases hhead : (survivors lostInMachine Fragment.role [first.role] rest).head? with
        | none => rfl
        | some fragment =>
            exact options?_of_mem_survivors (List.cons_ne_nil _ _) (List.mem_of_head? hhead)
      · rfl

/-! ## 5. The checks pass -/

theorem entries_states (fragments : List Fragment) :
    (Siblings.states fragments).map (fun node => (node.id, node))
      = fragments.filterMap Fragment.keyedState? :=
  List.map_filterMap

theorem uniqueKeys_stateIds {lost : List Role → Role → List Role → Bool}
    (h : Keyed lost Fragment.role .state Fragment.keyedState?) (fragments : List Fragment) :
    Siblings.UniqueKeys (Siblings.stateIds (survivors lost Fragment.role [] fragments)) := by
  have hunique := h.uniqueKeys [] fragments
  rw [← entries_states, List.map_map] at hunique
  exact hunique

/-- The survivors among the children of a state pass its checks. -/
theorem violations_survivors_inState (fragments : List Fragment) :
    Siblings.violations Siblings.stateChecks
      (survivors lostInState Fragment.role [] fragments) = [] := by
  refine Siblings.violations_stateChecks_eq_nil_iff.mpr
    ⟨uniqueKeys_stateIds keyed_states_inState fragments,
      keyed_transitions_inState.uniqueKeys [] fragments, ?_⟩
  rw [invokes_survivors, if_neg List.not_mem_nil]
  exact List.length_take_le 1 _

/-- The survivors among the children of a machine pass its check. -/
theorem violations_survivors_inMachine (fragments : List Fragment) :
    Siblings.violations Siblings.machineChecks (SplitChildren.withoutOptions
      (survivors lostInMachine Fragment.role [] fragments)) = [] := by
  rw [Siblings.violations_machineChecks_eq_nil_iff]
  exact uniqueKeys_stateIds keyed_states_inMachine fragments

end Role

end Statechart
