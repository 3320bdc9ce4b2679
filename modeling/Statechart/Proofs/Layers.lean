/-
`Proofs/Layers.lean` -- the layers of a machine's configuration.

A machine is configured by its attributes, by the record in its `config` attribute and by the options
record that leads its children. The two records are laid over each other: what is below stays where
it is and takes its value from above, and what is only above follows. Each field of the top level is
then taken from the first layer that has it, and what is no field is left in the order of the layers.
-/
import Statechart.Proofs.Folds
import Statechart.Proofs.Settled

set_option autoImplicit false

namespace Statechart

/-! ## 1. Tables laid over each other -/

namespace OrderedMap

variable {α : Type}

/-- A table with another laid over it. The entries below stay where they are, with the value from
above where there is one, and the entries that are only above follow in their order. -/
def overlaid (below above : OrderedMap α) : OrderedMap α :=
  (below.map fun entry => (entry.1, (above.get? entry.1).getD entry.2))
    ++ above.filter fun entry => !below.contains entry.1

/-- Tables are equal if they list the same keys, each once and in the same order, and hold the same
under each. -/
theorem Distinct.ext {left right : OrderedMap α} (h : left.Distinct) (hkeys : left.keys = right.keys)
    (hget : ∀ key, left.get? key = right.get? key) : left = right := by
  induction left generalizing right with
  | nil => exact (List.map_eq_nil_iff.mp hkeys.symm).symm
  | cons entry rest ih =>
      obtain ⟨key, value⟩ := entry
      cases right with
      | nil => exact absurd hkeys (List.cons_ne_nil _ _)
      | cons entry' rest' =>
          obtain ⟨key', value'⟩ := entry'
          obtain ⟨rfl, hrest⟩ : key = key' ∧ keys rest = keys rest' := List.cons.inj hkeys
          obtain ⟨hnew, hdistinct⟩ : key ∉ keys rest ∧ (keys rest).Nodup := List.nodup_cons.mp h
          have hvalue : value = value' := by
            have hfirst := hget key
            rwa [get?_cons, get?_cons, if_pos rfl, if_pos rfl, Option.some.injEq] at hfirst
          have hothers : rest = rest' := by
            refine ih hdistinct hrest fun other => ?_
            by_cases hother : key = other
            · -- the first key comes in neither rest
              subst hother
              rw [get?_eq_none_iff.mpr hnew, get?_eq_none_iff.mpr (hrest ▸ hnew)]
            · have hlater := hget other
              rwa [get?_cons, get?_cons, if_neg hother, if_neg hother] at hlater
          rw [hvalue, hothers]

/-- A key that passes is found among the entries whose keys pass. -/
theorem get?_filter_by_key (keep : String → Bool) (table : OrderedMap α) {key : String}
    (h : keep key = true) :
    get? (table.filter fun entry => keep entry.1) key = table.get? key := by
  induction table with
  | nil => rfl
  | cons entry rest ih =>
      obtain ⟨first, value⟩ := entry
      by_cases hkept : keep first = true
      · rw [List.filter_cons_of_pos (by exact hkept), get?_cons, get?_cons, ih]
      · have hne : ¬first = key := fun e => hkept (e ▸ h)
        rw [List.filter_cons_of_neg (by exact hkept), ih, get?_cons, if_neg hne]

theorem keys_overlaid (below above : OrderedMap α) :
    (overlaid below above).keys
      = below.keys ++ above.keys.filter fun key => !below.keys.contains key := by
  have hcontains : ∀ key, below.contains key = below.keys.contains key := by
    intro key
    rw [Bool.eq_iff_iff, contains_iff, List.contains_iff_mem]
  rw [overlaid, keys, List.map_append, List.map_map]
  refine congrArg (keys below ++ ·) ?_
  simp only [hcontains]
  rw [keys, keys, List.filter_map]
  rfl

/-- What is above counts, and what is below if there is nothing above. -/
theorem get?_overlaid (below above : OrderedMap α) (key : String) :
    (overlaid below above).get? key = (above.get? key).or (below.get? key) := by
  rw [overlaid, get?_append,
    get?_map_by_key (fun first value => (above.get? first).getD value) below key]
  cases hfound : below.get? key with
  | none =>
      have hnew : (!below.contains key) = true := by
        rw [contains, hfound]
        rfl
      have habove := get?_filter_by_key (fun key => !below.contains key) above hnew
      rw [habove, Option.map_none, Option.none_or, Option.or_none]
  | some value =>
      rw [Option.map_some, Option.some_or]
      cases above.get? key with
      | none => rfl
      | some upper => rfl

/-- Writing one table over another lays it over the other. -/
theorem extend_eq_overlaid {below above : OrderedMap α} (hbelow : below.Distinct)
    (habove : above.Distinct) : below.extend above = overlaid below above := by
  refine (hbelow.extend above).ext ?_ fun key => ?_
  · rw [habove.keys_extend, keys_overlaid]
  · have hreverse : get? above.reverse key = above.get? key := habove.get?_reverse key
    rw [get?_extend, get?_overlaid, hreverse]

/-- What is left after members are taken away twice. -/
theorem without_without {dropped dropped' all : List String}
    (h : ∀ key, key ∈ all ↔ key ∈ dropped ∨ key ∈ dropped') (table : OrderedMap α) :
    (table.without dropped).without dropped' = table.without all := by
  rw [without, without, without, List.filter_filter]
  refine List.filter_congr fun entry _ => ?_
  rw [Bool.eq_iff_iff]
  simp only [Bool.and_eq_true, Bool.not_eq_true', List.contains_eq_mem, decide_eq_false_iff_not, h]
  rw [not_or, and_comm]

end OrderedMap

/-! ## 2. Configurations -/

namespace Compile

/-- The raw members of a configuration: those of the `config` attribute, with those of the options
record laid over them. -/
theorem rawMembers_eq_overlaid {attributes : Attributes} {options : OptionsRecord}
    (hconfig : (configMembers attributes).Distinct) (hoptions : options.config.Distinct) :
    rawMembers attributes options = (configMembers attributes).overlaid options.config :=
  OrderedMap.extend_eq_overlaid hconfig hoptions

/-- A configuration is taken from its layers: the attributes of the machine, an options record, and
raw members. -/
structure Layered (attributes : Attributes) (options : OptionsRecord) (raw : Attributes)
    (children : List Fragment) (config : MachineConfig) : Prop where
  /-- An attribute of the machine counts before a raw member, `null` included. -/
  id : config.id = (attributes.get? "id").or (raw.get? "id")
  initial : config.initial = (attributes.get? "initial").or (raw.get? "initial")
  type : config.type = (attributes.get? "type").or (raw.get? "type")
  /-- The context of the options record counts before a raw one. Without either it is empty. -/
  context : config.context = (options.context.or (raw.get? "context")).getD (.obj [])
  /-- Raw members that are no fields stay as they are and where they are. -/
  extra : config.extra.without ["states"]
    = raw.without ["id", "context", "initial", "type", "states"]
  /-- The states are those of the children if one of them has an id, and then no raw ones are
  left. -/
  states : (∃ node ∈ Siblings.states children, node.id.isSome) →
    ∃ table, (Siblings.mergeStates children).value = some table ∧ config.states = some table ∧
      "states" ∉ config.extra.keys

/-- A configuration that is assembled is taken from its layers. -/
theorem layered_assembleConfig (attributes : Attributes) (options : OptionsRecord)
    (children : List Fragment) :
    Layered attributes options (rawMembers attributes options) children
      (assembleConfig attributes options (Siblings.mergeStates children).value) where
  id := rfl
  initial := rfl
  type := rfl
  context := rfl
  extra := by
    refine OrderedMap.without_without (fun key => ?_) _
    -- whether the states are taken away at once or later makes no difference
    cases (machineStates? (Siblings.mergeStates children).value
      (rawMembers attributes options)).isSome <;> simp [or_assoc]
  states := by
    intro hkeyed
    obtain ⟨table, htable⟩ := Siblings.exists_mergeStates_of_id hkeyed
    rw [htable]
    exact ⟨table, rfl, rfl, OrderedMap.not_mem_keys_without (by simp [machineStates?])⟩

/-- Only four attributes of a machine matter to its configuration. -/
theorem assembleConfig_congr {attributes attributes' : Attributes}
    (h : ∀ name ∈ machineAttributes, attributes'.get? name = attributes.get? name)
    (options : OptionsRecord) (folded : Option StateTable) :
    assembleConfig attributes' options folded = assembleConfig attributes options folded := by
  have hraw : rawMembers attributes' options = rawMembers attributes options := by
    rw [rawMembers, rawMembers, configMembers, configMembers, h "config" (by decide)]
  have hlayered : ∀ name ∈ machineAttributes, ∀ raw : Attributes,
      layered? attributes' raw name = layered? attributes raw name := by
    intro name hname raw
    rw [layered?, layered?, h name hname]
  dsimp only [assembleConfig]
  rw [hraw, hlayered "id" (by decide), hlayered "initial" (by decide),
    hlayered "type" (by decide)]

end Compile

/-- **Layers of a configuration.** The configuration of a machine that compiles is taken from its
layers: the attributes of the machine, the options record that leads its children if one does, and
the raw members, which are those of the `config` attribute with those of the options record laid
over them; neither of the two repeats a member. A machine whose attributes differ in no more than
those that no machine has a use for compiles to the same. -/
theorem layered_of_machine {run : Nat} {patcher : Patcher} {policy : Policy}
    {attributes : Attributes} {children : List Fragment} {machine : Blueprint}
    (distinct : (Compile.configMembers attributes).Distinct)
    (distinctOptions : ((SplitChildren.leading? children).getD {}).config.Distinct)
    (compiled : (Compile.machine run patcher policy attributes children).result = .ok machine) :
    Compile.Layered attributes ((SplitChildren.leading? children).getD {})
        ((Compile.configMembers attributes).overlaid
          ((SplitChildren.leading? children).getD {}).config)
        children machine.config ∧
      ∀ attributes' : Attributes,
        (∀ name ∈ Compile.machineAttributes, attributes'.get? name = attributes.get? name) →
        (Compile.machine run patcher policy attributes' children).result = .ok machine := by
  obtain ⟨hpasses, rfl⟩ := Compile.result_machine_eq_ok_iff.mp compiled
  refine ⟨?_, fun attributes' hsame => ?_⟩
  · rw [← Compile.rawMembers_eq_overlaid distinct distinctOptions, Compile.machineOf,
      Siblings.mergeStates_withoutOptions]
    exact Compile.layered_assembleConfig attributes _ children
  · refine Compile.result_machine_eq_ok_iff.mpr ⟨hpasses, ?_⟩
    rw [Compile.machineOf, Compile.machineOf, Compile.assembleConfig_congr hsame]

/-- Attributes of a machine that say what its record says otherwise, and one that it has no use
for. -/
def layeredAttributes : Attributes :=
  [("type", .null), ("color", .str "red"), ("id", .str "m"),
    ("config", .obj [("version", .num (.int 1)), ("initial", .str "a"), ("id", .str "raw"),
      ("strict", .bool false), ("states", .obj [])])]

/-- An options record that writes over some members of that record and adds others. -/
def layeredOptions : OptionsRecord :=
  { context := some (.obj [("count", .num (.int 0))])
    config := [("delimiter", .str "."), ("strict", .bool true), ("type", .str "parallel"),
      ("context", .null)] }

theorem layered_of_machine_layeredOptions :
    ∃ machine,
      (Compile.machine 0 Patcher.assign .warn layeredAttributes
        [.options layeredOptions, .state { id := some "a" }]).result = .ok machine ∧
      machine.config.id = some (.str "m") ∧ machine.config.initial = some (.str "a") ∧
      machine.config.type = some .null ∧
      machine.config.context = .obj [("count", .num (.int 0))] ∧
      machine.config.extra.without ["states"]
        = [("version", .num (.int 1)), ("strict", .bool true), ("delimiter", .str ".")] ∧
      "states" ∉ machine.config.extra.keys ∧
      (Compile.machine 0 Patcher.assign .warn (layeredAttributes.without ["color"])
        [.options layeredOptions, .state { id := some "a" }]).result = .ok machine := by
  have hconfig : (Compile.configMembers layeredAttributes).Distinct := by
    simp [Compile.configMembers, layeredAttributes, OrderedMap.get?, Json.members?]
  have hoptions : layeredOptions.config.Distinct := by
    simp [layeredOptions]
  obtain ⟨layers, hothers⟩ := @layered_of_machine 0 Patcher.assign .warn layeredAttributes
    [.options layeredOptions, .state { id := some "a" }] _ hconfig hoptions rfl
  obtain ⟨_, -, -, hstates⟩ := layers.states ⟨{ id := some "a" }, List.mem_singleton.mpr rfl, rfl⟩
  refine ⟨_, rfl, layers.id, layers.initial, layers.type, layers.context, layers.extra, hstates, ?_⟩
  exact hothers _ (by decide)

end Statechart
