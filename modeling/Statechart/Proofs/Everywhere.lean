/-
`Proofs/Everywhere.lean` -- what holds of a state and of all states in it.

A state holds a table of states, and each of these may hold another. A property holds everywhere in
a state when it holds of the state and everywhere in the states of its table. Reading gives no state
an id, so what it gives back of a state is the state with all ids in it taken away.
-/
import Statechart.Machine.Config
import Statechart.OrderedMap.Lemmas

set_option autoImplicit false

namespace Statechart.StateNode

/-! ## 1. Properties of states at every depth -/

mutual
/-- The property holds of the state and of every state in it, at any depth. -/
def Everywhere (p : StateNode → Prop) : StateNode → Prop
  | ⟨id, entry, exit, on, invoke, states, attributes⟩ =>
      p ⟨id, entry, exit, on, invoke, states, attributes⟩ ∧ EverywhereIn p states
/-- The property holds everywhere in the states of a table, if there is one. -/
def EverywhereIn (p : StateNode → Prop) : Option (List (String × StateNode)) → Prop
  | none => True
  | some table => EverywhereAmong p table
/-- The property holds everywhere in the state of each entry. -/
def EverywhereAmong (p : StateNode → Prop) : List (String × StateNode) → Prop
  | [] => True
  | (_, node) :: rest => node.Everywhere p ∧ EverywhereAmong p rest
end

variable {p q : StateNode → Prop}

theorem everywhere_iff {node : StateNode} :
    node.Everywhere p ↔ p node ∧ EverywhereIn p node.states := by
  obtain ⟨⟩ := node
  rw [Everywhere]

theorem everywhereAmong_iff {table : StateTable} :
    EverywhereAmong p table ↔ ∀ entry ∈ table, entry.2.Everywhere p := by
  induction table with
  | nil => simp [EverywhereAmong]
  | cons entry rest ih => simp [EverywhereAmong, ih]

theorem everywhereIn_iff {states : Option StateTable} :
    EverywhereIn p states ↔ ∀ table, states = some table → EverywhereAmong p table := by
  cases states with
  | none => simp [EverywhereIn]
  | some table => simp [EverywhereIn]

mutual
/-- What follows from a property of a state follows everywhere. -/
theorem Everywhere.imp (h : ∀ node, p node → q node) : {node : StateNode} → node.Everywhere p →
    node.Everywhere q
  | ⟨_, _, _, _, _, _, _⟩, ⟨hnode, hstates⟩ => ⟨h _ hnode, EverywhereIn.imp h hstates⟩
/-- In a table, if there is one. -/
theorem EverywhereIn.imp (h : ∀ node, p node → q node) :
    {states : Option (List (String × StateNode))} → EverywhereIn p states → EverywhereIn q states
  | none, _ => trivial
  | some _, hstates => EverywhereAmong.imp h hstates
/-- Entry by entry. -/
theorem EverywhereAmong.imp (h : ∀ node, p node → q node) :
    {table : List (String × StateNode)} → EverywhereAmong p table → EverywhereAmong q table
  | [], _ => trivial
  | (_, _) :: _, ⟨hnode, hrest⟩ => ⟨Everywhere.imp h hnode, EverywhereAmong.imp h hrest⟩
end

mutual
/-- Two properties that hold everywhere hold together everywhere. -/
theorem Everywhere.and : {node : StateNode} → node.Everywhere p → node.Everywhere q →
    node.Everywhere fun node => p node ∧ q node
  | ⟨_, _, _, _, _, _, _⟩, ⟨hp, hstates⟩, ⟨hq, hstates'⟩ =>
      ⟨⟨hp, hq⟩, EverywhereIn.and hstates hstates'⟩
/-- In a table, if there is one. -/
theorem EverywhereIn.and : {states : Option (List (String × StateNode))} → EverywhereIn p states →
    EverywhereIn q states → EverywhereIn (fun node => p node ∧ q node) states
  | none, _, _ => trivial
  | some _, hstates, hstates' => EverywhereAmong.and hstates hstates'
/-- Entry by entry. -/
theorem EverywhereAmong.and : {table : List (String × StateNode)} → EverywhereAmong p table →
    EverywhereAmong q table → EverywhereAmong (fun node => p node ∧ q node) table
  | [], _, _ => trivial
  | (_, _) :: _, ⟨hp, hrest⟩, ⟨hq, hrest'⟩ =>
      ⟨Everywhere.and hp hq, EverywhereAmong.and hrest hrest'⟩
end

/-! ## 2. States without ids -/

mutual
/-- The state without its id and without those of the states in it. -/
def unnamed : StateNode → StateNode
  | ⟨_, entry, exit, on, invoke, states, attributes⟩ =>
      ⟨none, entry, exit, on, invoke, unnamedIn states, attributes⟩
/-- The states of a table, if there is one, without ids. -/
def unnamedIn : Option (List (String × StateNode)) → Option (List (String × StateNode))
  | none => none
  | some table => some (unnamedAmong table)
/-- The state of each entry without ids. -/
def unnamedAmong : List (String × StateNode) → List (String × StateNode)
  | [] => []
  | (id, node) :: rest => (id, node.unnamed) :: unnamedAmong rest
end

theorem unnamedIn_eq_map (states : Option StateTable) :
    unnamedIn states = states.map unnamedAmong := by
  cases states with
  | none => rfl
  | some table => rfl

theorem keys_unnamedAmong (table : StateTable) :
    OrderedMap.keys (unnamedAmong table) = table.keys := by
  induction table with
  | nil => rfl
  | cons entry rest ih => exact congrArg (entry.1 :: ·) ih

mutual
/-- Where no state has an id, there is none to take away. -/
theorem Everywhere.unnamed_eq : {node : StateNode} → (node.Everywhere fun node => node.id = none) →
    node.unnamed = node
  | ⟨_, _, _, _, _, _, _⟩, ⟨hid, hstates⟩ => by
      rw [unnamed, EverywhereIn.unnamedIn_eq hstates]
      exact congrArg (StateNode.mk · _ _ _ _ _ _) hid.symm
/-- In a table, if there is one. -/
theorem EverywhereIn.unnamedIn_eq : {states : Option (List (String × StateNode))} →
    EverywhereIn (fun node => node.id = none) states → unnamedIn states = states
  | none, _ => rfl
  | some _, h => congrArg some (EverywhereAmong.unnamedAmong_eq h)
/-- Entry by entry. -/
theorem EverywhereAmong.unnamedAmong_eq : {table : List (String × StateNode)} →
    EverywhereAmong (fun node => node.id = none) table → unnamedAmong table = table
  | [], _ => rfl
  | (_, _) :: _, ⟨hnode, hrest⟩ => by
      rw [unnamedAmong, Everywhere.unnamed_eq hnode, EverywhereAmong.unnamedAmong_eq hrest]
end

end Statechart.StateNode

namespace Statechart.MachineConfig

/-- The configuration without the ids of its states. -/
def unnamed (config : MachineConfig) : MachineConfig :=
  { config with states := StateNode.unnamedIn config.states }

end Statechart.MachineConfig
