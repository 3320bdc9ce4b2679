/-
`Proofs/StateMembers.lean` -- a compiled state, member by member.

A state is written as its hooks, then what its children contribute, then the attributes that are
left. What each part is can be said of the attributes and the children alone: a hook comes under one
of two names, a table is there if one of its children has a key, and an attribute is left unless the
state takes it for itself or a child contributes the member of its name.
-/
import Statechart.Proofs.Folds
import Statechart.Proofs.Success
import Statechart.Proofs.Written

set_option autoImplicit false

namespace Statechart

namespace Compile

/-! ## 1. The parts of a state -/

/-- A hook as a member: the attribute of its own name if there is one, `null` included, or else the
attribute of the name that it has in markup. -/
def hookMember (attributes : Attributes) (name markupName : String) : List (String × Json) :=
  optionalMember name ((attributes.get? name).or (attributes.get? markupName))

/-- The member for a table of entries: there is one exactly where an entry has a key, and then it
holds the entries that have one, each key where it came first and with its last value. -/
def tableMember {α : Type} (name : String) (write : OrderedMap α → Json)
    (entries : List (Option String × α)) : List (String × Json) :=
  if ∃ entry ∈ entries, entry.1.isSome then
    [(name, write (OrderedMap.ofBindings (Siblings.keyed entries)))]
  else []

/-- The members that children contribute to a state: its transitions, its first invoke block and its
nested states. -/
def contributed (children : List Fragment) : List (String × Json) :=
  tableMember "on" Transition.writtenTable (Siblings.transitions children)
    ++ optionalMember "invoke" ((Siblings.invokes children).head?.map .obj)
    ++ tableMember "states" StateNode.writtenTable
        ((Siblings.states children).map fun node => (node.id, node))

/-! ## 2. What the folds contribute -/

/-- A keyed fold is written as the member for its table. -/
theorem optionalMember_mergeKeyed {α : Type} (name : String) (write : OrderedMap α → Json)
    (skipped : Notice) (replaced : String → Notice) (entries : List (Option String × α)) :
    optionalMember name ((Siblings.mergeKeyed skipped replaced entries).value.map write)
      = tableMember name write entries := by
  rw [tableMember]
  by_cases h : ∃ entry ∈ entries, entry.1.isSome
  · rw [if_pos h, Siblings.value_mergeKeyed_of_key h]
    rfl
  · rw [if_neg h, Siblings.value_mergeKeyed_of_no_key h]
    rfl

/-- The children contribute what their folds come to. -/
theorem contributed_eq (children : List Fragment) :
    contributed children
      = optionalMember "on" ((Siblings.mergeTransitions children).value.map Transition.writtenTable)
        ++ optionalMember "invoke" ((Siblings.firstInvoke? children).map .obj)
        ++ optionalMember "states"
            ((Siblings.mergeStates children).value.map StateNode.writtenTable) := by
  rw [Siblings.mergeTransitions, optionalMember_mergeKeyed, Siblings.mergeStates,
    optionalMember_mergeKeyed]
  rfl

/-- A name is written if a value was folded for it. -/
theorem keys_optionalMember {α : Type} (name : String) (write : α → Json) (value : Option α) :
    OrderedMap.keys (optionalMember name (value.map write)) = folded name value := by
  cases value with
  | none => rfl
  | some value => rfl

/-- The names of what the children contribute are those of their folds. -/
theorem keys_contributed (children : List Fragment) :
    OrderedMap.keys (contributed children)
      = folded "on" (Siblings.mergeTransitions children).value
        ++ folded "invoke" (Siblings.firstInvoke? children)
        ++ folded "states" (Siblings.mergeStates children).value := by
  rw [contributed_eq, OrderedMap.keys, List.map_append, List.map_append]
  exact congrArg₂ (· ++ ·)
    (congrArg₂ (· ++ ·) (keys_optionalMember ..) (keys_optionalMember ..))
    (keys_optionalMember ..)

/-! ## 3. The state -/

/-- The attributes that are left to a state: those that it does not take for itself and that are not
named like what its children contribute. -/
theorem attributes_stateOf (attributes : Attributes) (children : List Fragment) :
    (stateOf attributes children).attributes
      = attributes.filter fun member =>
          member.1 ∉ ["id", "entry", "exit", "on-entry", "on-exit"] ∧
            member.1 ∉ OrderedMap.keys (contributed children) := by
  rw [keys_contributed]
  refine List.filter_congr fun member _ => ?_
  rw [Bool.eq_iff_iff, decide_eq_true_iff, Bool.not_eq_true', List.contains_eq_mem,
    decide_eq_false_iff_not, List.append_assoc, List.append_assoc, List.mem_append, not_or,
    List.append_assoc]
  exact Iff.rfl

end Compile

/-- **A state, member by member.** A state that compiles has the key of its attribute `id` for its
id, if there is one. It is written as its entry hook, its exit hook, what its children contribute,
and the attributes that are left, with their values and in their order. -/
theorem members_of_state {policy : Policy} {attributes : Attributes} {children : List Fragment}
    {node : StateNode}
    (compiled : (Compile.state policy attributes children).result = .ok node) :
    node.id = (attributes.get? "id").map Json.key ∧
      node.members
        = Compile.hookMember attributes "entry" "on-entry"
          ++ Compile.hookMember attributes "exit" "on-exit"
          ++ Compile.contributed children
          ++ attributes.filter fun member =>
              member.1 ∉ ["id", "entry", "exit", "on-entry", "on-exit"] ∧
                member.1 ∉ OrderedMap.keys (Compile.contributed children) := by
  obtain ⟨-, rfl⟩ := Compile.result_state_eq_ok_iff.mp compiled
  refine ⟨rfl, ?_⟩
  rw [StateNode.members_eq, flattened, Compile.attributes_stateOf, Compile.contributed_eq]
  refine congrArg (· ++ _) ?_
  simp only [StateNode.fieldValues, List.flatMap_cons, List.flatMap_nil, List.append_nil,
    List.append_assoc]
  rfl

/-- Attributes of a state with a hook under both of its names, and with members named like what
children contribute. -/
def crowdedAttributes : Attributes :=
  [("type", .str "compound"), ("on-entry", .str "greet"), ("on", .str "raw"), ("id", .num (.int 7)),
    ("states", .null), ("entry", .null), ("on-exit", .str "leave"), ("meta", .obj [])]

theorem members_of_state_crowdedAttributes :
    ∃ node,
      (Compile.state .reject crowdedAttributes
        [.transition (some "GO") { target := some (.str "next") }, .record []]).result = .ok node ∧
      node.id = some "7" ∧
      node.members
        = [("entry", .null), ("exit", .str "leave"),
          ("on", .obj [("GO", .obj [("target", .str "next")])]),
          ("type", .str "compound"), ("states", .null), ("meta", .obj [])] := by
  obtain ⟨hid, hmembers⟩ := @members_of_state .reject crowdedAttributes
    [.transition (some "GO") { target := some (.str "next") }, .record []] _ rfl
  exact ⟨_, rfl, hid, hmembers⟩

end Statechart
