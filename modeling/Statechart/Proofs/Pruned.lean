/-
`Proofs/Pruned.lean` -- building a tree without what its parents lose.

Pruning a tree takes away, on every level, the children that do not survive. What is left has
nothing ambiguous in it, so it builds whatever the policy; and what was taken away had no part in
the machine, so the machine is the same.
-/
import Statechart.Proofs.Account
import Statechart.Proofs.Distinct
import Statechart.Proofs.Lookup
import Statechart.Proofs.Renewal
import Statechart.Proofs.Survivors

set_option autoImplicit false

namespace Statechart

variable {M : Type}

/-! ## 1. Pruned trees -/

/-- What a child is to its parent, told from its tag and its attributes. -/
def Child.role : Child M → Role
  | .element (.node (.builtin .state) attributes _) => .state ((attributes.get? "id").map Json.key)
  | .element (.node (.builtin .transition) attributes _) =>
      .transition ((attributes.get? "event").map Json.key)
  | .element (.node (.builtin .invoke) _ _) => .invoke
  | .element (.node _ _ _) => .other
  | .fragment found => found.role

/-- What an element with the given tag loses of its children. -/
def Tag.lost : Tag M → List Role → Role → List Role → Bool
  | .builtin .state => Role.lostInState
  | .builtin .machine => Role.lostInMachine
  | _ => fun _ _ _ => false

mutual
/-- The tree in which every state and every machine has only the children that survive: of the
states with an id and of the transitions of a state with an event the last of each, of the invoke
blocks of a state the first, and of the options records of a machine the one that leads all
children. -/
def Element.pruned : Element M → Element M
  | .node tag attributes children =>
      .node tag attributes (Role.survivors tag.lost Child.role [] (Child.allPruned children))
/-- `Element.pruned` of each child. -/
def Child.allPruned : List (Child M) → List (Child M)
  | [] => []
  | .element element :: rest => .element element.pruned :: Child.allPruned rest
  | .fragment found :: rest => .fragment found :: Child.allPruned rest
end

/-! ## 2. Fragments that match -/

/-- A state that is equal to the other one, or any other fragment, if it is the same and repeats no
member. -/
inductive Fragment.Matches : Fragment → Fragment → Prop
  | state {new old : StateNode} (same : new.same old = true) : Matches (.state new) (.state old)
  | transition (event : Option String) (declared : Transition)
      (same : declared.same declared = true) :
      Matches (.transition event declared) (.transition event declared)
  | invoke (block : Attributes) (distinct : (Json.obj block).Distinct) :
      Matches (.invoke block) (.invoke block)
  | record (members : Attributes) (distinct : (Json.obj members).Distinct) :
      Matches (.record members) (.record members)
  | options (record : OptionsRecord) (distinct : record.Distinct) :
      Matches (.options record) (.options record)

/-! ## 3. Folding the survivors -/

namespace Siblings

variable {lost : List Role → Role → List Role → Bool} {new old : List Fragment}

/-- The survivors that are keyed fold to a table that is equal to the one of all. -/
theorem same_mergeKeyed_survivors {α : Type} {eq : α → α → Bool} {named : Option String → Role}
    {keyed? : Fragment → Option (Option String × α)}
    (keyed : Role.Keyed lost Fragment.role named keyed?)
    (fits : ∀ a b : Fragment, a.Matches b → Option.Rel
      (fun a b : Option String × α => a.1 = b.1 ∧ eq a.2 b.2 = true) (keyed? a) (keyed? b))
    (hmatches : List.Forall₂ Fragment.Matches new old) (skipped : Notice)
    (replaced : String → Notice) :
    sameOption (OrderedMap.same eq)
      (mergeKeyed skipped replaced
        ((Role.survivors lost Fragment.role [] new).filterMap keyed?)).value
      (mergeKeyed skipped replaced (old.filterMap keyed?)).value = true := by
  refine same_mergeKeyed skipped replaced fun key => ?_
  rw [keyed.find?_survivors]
  -- the last entry of the key survives, and it is equal to that of the other list
  have hentries := List.rel_filterMap (fun a b h => fits a b h) hmatches
  have hfind := forall₂_find? (List.forall₂_reverse_iff.mpr hentries)
    (p := fun entry => entry.1 == some key) (q := fun entry => entry.1 == some key)
    fun a b h => by rw [h.1]
  generalize (new.filterMap keyed?).reverse.find? _ = a? at hfind ⊢
  generalize (old.filterMap keyed?).reverse.find? _ = b? at hfind ⊢
  cases hfind with
  | none => exact .none
  | some h => exact .some h.1.2

/-- The surviving states fold to a table that is equal to the one of all. -/
theorem sameStates_survivors
    (keyed : Role.Keyed lost Fragment.role .state Fragment.keyedState?)
    (hmatches : List.Forall₂ Fragment.Matches new old) :
    StateNode.sameStates (mergeStates (Role.survivors lost Fragment.role [] new)).value
      (mergeStates old).value = true := by
  rw [mergeStates, mergeStates, Role.entries_states, Role.entries_states, StateNode.sameStates_eq]
  refine same_mergeKeyed_survivors keyed (fun a b h => ?_) hmatches _ _
  cases h with
  | state same => exact .some ⟨StateNode.id_eq_of_same same, same⟩
  | transition | invoke | record | options => exact .none

/-- The surviving transitions of a state fold to a table that is equal to the one of all. -/
theorem sameTransitions_survivors (hmatches : List.Forall₂ Fragment.Matches new old) :
    sameOption (OrderedMap.same Transition.same)
      (mergeTransitions (Role.survivors Role.lostInState Fragment.role [] new)).value
      (mergeTransitions old).value = true := by
  refine same_mergeKeyed_survivors Role.keyed_transitions_inState (fun a b h => ?_) hmatches _ _
  cases h with
  | transition event declared same => exact .some ⟨rfl, same⟩
  | state | invoke | record | options => exact .none

/-- The invoke blocks of fragments that match are the same, and repeat no member. -/
theorem invokes_of_matches (hmatches : List.Forall₂ Fragment.Matches new old) :
    List.Forall₂ (fun a b => a = b ∧ (Json.obj b).Distinct) (invokes new) (invokes old) := by
  refine List.rel_filterMap (fun a b h => ?_) hmatches
  cases h with
  | invoke block distinct => exact .some ⟨rfl, distinct⟩
  | state | transition | record | options => exact .none

/-- The records of fragments that match are the same, and repeat no member. -/
theorem records_of_matches (hmatches : List.Forall₂ Fragment.Matches new old) :
    List.Forall₂ (fun a b => a = b ∧ (Json.obj b).Distinct) (records new) (records old) := by
  refine List.rel_filterMap (fun a b h => ?_) hmatches
  cases h with
  | record members distinct => exact .some ⟨rfl, distinct⟩
  | state | transition | invoke | options => exact .none

/-- In a state the invoke block that is used survives. -/
theorem firstInvoke?_survivors (hmatches : List.Forall₂ Fragment.Matches new old) :
    firstInvoke? (Role.survivors Role.lostInState Fragment.role [] new) = firstInvoke? old ∧
      ∀ block, firstInvoke? old = some block → (Json.obj block).Distinct := by
  have hinvokes := invokes_of_matches hmatches
  rw [firstInvoke?, firstInvoke?, Role.invokes_survivors, if_neg List.not_mem_nil]
  generalize invokes new = blocks at hinvokes ⊢
  generalize invokes old = blocks' at hinvokes ⊢
  cases hinvokes with
  | nil => exact ⟨rfl, nofun⟩
  | cons h _ => exact ⟨congrArg some h.1, fun block hblock => Option.some.inj hblock ▸ h.2⟩

/-- Leading options of fragments that match are the same, and repeat no member. -/
theorem leading?_of_matches (hmatches : List.Forall₂ Fragment.Matches new old) :
    SplitChildren.leading? new = SplitChildren.leading? old ∧
      ∀ record, SplitChildren.leading? old = some record → record.Distinct := by
  cases hmatches with
  | nil => exact ⟨rfl, nofun⟩
  | cons h _ =>
      cases h with
      | options record distinct =>
          exact ⟨rfl, fun found hfound => Option.some.inj hfound ▸ distinct⟩
      | state | transition | invoke | record => exact ⟨rfl, nofun⟩

end Siblings

/-! ## 4. One element -/

namespace Compile

variable {attributes : Attributes} {new old : List Fragment}

/-- A hook is equal to itself where the attributes repeat no member. -/
theorem sameOption_hook? (h : (Json.obj attributes).Distinct) (name markupName : String) :
    sameOption Json.same (hook? attributes name markupName) (hook? attributes name markupName)
      = true := by
  exact sameOption_self fun value hvalue =>
    (distinct_hook? h name markupName value hvalue).same_self

/-- A name is kept out of the attributes of a state for one value as for another. -/
theorem folded_congr {α β : Type} (name : String) {a : Option α} {b : Option β}
    (h : a.isSome = b.isSome) : folded name a = folded name b := by
  rw [folded, folded, h]

/-- The survivors make a state that is equal to the one that all children make. -/
theorem same_stateOf (hattributes : (Json.obj attributes).Distinct)
    (hmatches : List.Forall₂ Fragment.Matches new old) :
    (stateOf attributes (Role.survivors Role.lostInState Fragment.role [] new)).same
      (stateOf attributes old) = true := by
  have hon := Siblings.sameTransitions_survivors hmatches
  have hstates := Siblings.sameStates_survivors Role.keyed_states_inState hmatches
  obtain ⟨hinvoke, hblock⟩ := Siblings.firstInvoke?_survivors hmatches
  have hstatesSome := isSome_eq_of_sameOption (StateNode.sameStates_eq _ _ ▸ hstates)
  refine StateNode.same_of_parts rfl (sameOption_hook? hattributes _ _)
    (sameOption_hook? hattributes _ _) hon ?_ hstates ?_
  · show sameOption Attributes.same (Siblings.firstInvoke? _) _ = true
    rw [hinvoke]
    exact sameOption_self fun block h => Attributes.same_self (hblock block h)
  · -- the same folds are present on both sides, so the same attributes are passed through
    show Attributes.same (attributes.without (_ ++ folded "on" _ ++ folded "invoke" _ ++
      folded "states" _)) _ = true
    rw [folded_congr "on" (isSome_eq_of_sameOption hon), folded_congr "invoke" (by rw [hinvoke]),
      folded_congr "states" hstatesSome]
    exact Attributes.same_self (hattributes.without _)

/-- A field of the top level is equal to itself where attributes and raw members repeat nothing. -/
theorem sameOption_layered? (hattributes : (Json.obj attributes).Distinct) {raw : Attributes}
    (hraw : (Json.obj raw).Distinct) (field : String) :
    sameOption Json.same (layered? attributes raw field) (layered? attributes raw field)
      = true := by
  exact sameOption_self fun value hvalue =>
    (distinct_layered? hattributes hraw field value hvalue).same_self

/-- Equal tables of children, or no such tables, come to equal states of the machine. -/
theorem same_machineStates? {folded folded' : Option StateTable}
    (h : StateNode.sameStates folded folded' = true) (raw : Attributes) :
    sameOption (OrderedMap.same StateNode.same) (machineStates? folded raw)
      (machineStates? folded' raw) = true := by
  rw [StateNode.sameStates_eq] at h
  match folded, folded' with
  | some _, some _ => exact h
  | none, none =>
      -- without states of its own the machine reads the raw ones, which are the same
      refine sameOption_self fun table htable => ?_
      obtain ⟨value, -, hread⟩ := Option.bind_eq_some_iff.mp htable
      exact StateNode.same_self_of_tableOfJson? hread

/-- Equal states of the machine make equal configurations. -/
theorem same_assembleConfig (hattributes : (Json.obj attributes).Distinct)
    {options : OptionsRecord} (hoptions : options.Distinct) {folded folded' : Option StateTable}
    (h : StateNode.sameStates folded folded' = true) :
    (assembleConfig attributes options folded).same (assembleConfig attributes options folded')
      = true := by
  have hraw := distinct_rawMembers hattributes hoptions
  have hstates := same_machineStates? h (rawMembers attributes options)
  have hcontext := distinct_context hattributes hoptions folded
  have hextra := isSome_eq_of_sameOption hstates
  simp only [MachineConfig.same, assembleConfig, Bool.and_eq_true]
  rw [StateNode.sameStates_eq, hextra]
  exact ⟨⟨⟨⟨⟨sameOption_layered? hattributes hraw "id", hcontext.same_self⟩,
    sameOption_layered? hattributes hraw "initial"⟩, sameOption_layered? hattributes hraw "type"⟩,
    hstates⟩, Attributes.same_self (hraw.without _)⟩

/-- The survivors make a machine that is equal to the one that all children make, with
implementations that are the same or derived again. -/
theorem same_machineOf (run run' : Nat) (patcher : Patcher)
    (hattributes : (Json.obj attributes).Distinct)
    (hmatches : List.Forall₂ Fragment.Matches new old) :
    (machineOf run patcher attributes
        (Role.survivors Role.lostInMachine Fragment.role [] new)).config.same
        (machineOf run' patcher attributes old).config = true ∧
      (machineOf run patcher attributes
        (Role.survivors Role.lostInMachine Fragment.role [] new)).options.Again
        (machineOf run' patcher attributes old).options := by
  obtain ⟨hleading, hdistinct⟩ := Siblings.leading?_of_matches hmatches
  have hoptions : ((SplitChildren.leading? old).getD {}).Distinct := by
    cases hrecord : SplitChildren.leading? old with
    | none => exact ⟨nofun, Json.distinct_obj_nil⟩
    | some record => exact hdistinct record hrecord
  rw [machineOf, machineOf, Role.leading?_survivors, hleading,
    Siblings.mergeStates_withoutOptions, Siblings.mergeStates_withoutOptions]
  refine ⟨same_assembleConfig hattributes hoptions
    (Siblings.sameStates_survivors Role.keyed_states_inMachine hmatches), ?_⟩
  exact (assembleOptions_repatched run run' patcher patcher _).again

/-- Children that match make the same invoke block, and one that repeats no member. -/
theorem invoke_of_matches (hattributes : (Json.obj attributes).Distinct)
    (hmatches : List.Forall₂ Fragment.Matches new old) :
    (invoke attributes new).value = (invoke attributes old).value ∧
      (Json.obj (invoke attributes old).value).Distinct := by
  have hrecords := Siblings.records_of_matches hmatches
  have hsame : Siblings.records new = Siblings.records old := by
    rw [← List.forall₂_eq_eq_eq]
    exact hrecords.imp fun _ _ h => h.1
  constructor
  · show attributes.extend ((Siblings.records new).foldl OrderedMap.extend []) = _
    rw [hsame]
    rfl
  · refine distinct_invoke hattributes fun record hrecord => ?_
    rw [hsame] at hrecords
    exact (List.forall₂_same.mp hrecords record hrecord).2

end Compile

/-! ## 5. Whole trees -/

namespace Compiler

/-- A pruned child yields a fragment that matches, and has its role. -/
def YieldsMatch (compiler : Compiler M) (child : Child M) (fragment : Fragment) : Prop :=
  compiler.Yields child fragment ∧ child.role = fragment.role

variable {compiler other : Compiler M} {tag : Tag M} {attributes : Attributes}
  {children : List (Child M)} {new old : List Fragment}

/-- A pruned element compiles what survives of the fragments of its pruned children. -/
theorem result_evaluate_pruned
    (hnew : List.Forall₂ compiler.YieldsMatch (Child.allPruned children) new) {output : Output M}
    (hcompile : (compiler.compile tag attributes
      (Role.survivors tag.lost Fragment.role [] new)).result = .ok output) :
    (compiler.evaluate (Element.node tag attributes children).pruned).result = .ok output :=
  result_evaluate_eq_ok_iff.mpr ⟨_, Role.forall₂_survivors hnew [], hcompile⟩

/-- An element whose pruned children yield fragments that match its own yields one that matches. -/
theorem exists_yieldsMatch {builtin : Builtin} (hattributes : (Json.obj attributes).Distinct)
    (hnew : List.Forall₂ other.YieldsMatch (Child.allPruned children) new)
    (hmatches : List.Forall₂ Fragment.Matches new old) {fragment : Fragment}
    (hcompile : (compiler.compile (.builtin builtin) attributes old).result
      = .ok (.fragment fragment)) :
    ∃ found, other.YieldsMatch
      (.element (Element.node (.builtin builtin) attributes children).pruned) found ∧
        found.Matches fragment := by
  have hyields : ∀ {found : Fragment}, (other.compile (.builtin builtin) attributes
      (Role.survivors (Tag.builtin builtin : Tag M).lost Fragment.role [] new)).result
        = .ok (.fragment found) →
      other.Yields (.element (Element.node (.builtin builtin) attributes children).pruned) found :=
    fun h => result_evaluate_pruned hnew h
  cases builtin with
  | machine =>
      obtain ⟨-, houtput⟩ := result_compile_machine_eq_ok_iff.mp hcompile
      exact absurd houtput nofun
  | state =>
      -- whatever the policy of the other compiler, the survivors pass its checks
      obtain ⟨-, houtput⟩ := result_compile_state_eq_ok_iff.mp hcompile
      cases houtput
      exact ⟨_, ⟨hyields (result_compile_state_eq_ok_iff.mpr
        ⟨fun _ => Role.violations_survivors_inState new, rfl⟩), rfl⟩,
        .state (Compile.same_stateOf hattributes hmatches)⟩
  | transition =>
      cases hcompile
      refine ⟨_, ⟨hyields rfl, rfl⟩, .transition _ _ ?_⟩
      rw [Transition.same, Bool.and_eq_true]
      exact ⟨sameOption_self fun value hvalue => (hattributes.of_get? hvalue).same_self,
        Attributes.same_self (hattributes.without _)⟩
  | invoke =>
      obtain ⟨hinvoke, hdistinct⟩ := Compile.invoke_of_matches hattributes hmatches
      have hall : Role.survivors (Tag.builtin .invoke : Tag M).lost Fragment.role [] new = new :=
        Role.survivors_of_never [] new
      cases hcompile
      refine ⟨.invoke (Compile.invoke attributes new).value, ⟨hyields ?_, rfl⟩, ?_⟩
      · rw [hall]
        rfl
      · rw [hinvoke]
        exact .invoke _ hdistinct
  | onDone =>
      cases hcompile
      exact ⟨_, ⟨hyields rfl, rfl⟩, .record _ (Compile.distinct_outcome hattributes _)⟩
  | onError =>
      cases hcompile
      exact ⟨_, ⟨hyields rfl, rfl⟩, .record _ (Compile.distinct_outcome hattributes _)⟩

mutual
/-- A pruned element yields, in any compiler, a fragment that matches that of the whole element. -/
theorem exists_yieldsMatch_element (other : Compiler M) : (element : Element M) → element.Plain →
    element.Distinct → {fragment : Fragment} → compiler.Yields (.element element) fragment →
      ∃ found, other.YieldsMatch (.element element.pruned) found ∧ found.Matches fragment
  | .node _ _ children, ⟨⟨builtin, hbuiltin⟩, hplain⟩, ⟨hattributes, hdistinct⟩, _, h => by
      subst hbuiltin
      obtain ⟨old, hyields, hcompile⟩ := result_evaluate_eq_ok_iff.mp h
      obtain ⟨new, hnew, hmatches⟩ :=
        exists_forall₂_yieldsMatch other children hplain hdistinct hyields
      exact exists_yieldsMatch hattributes hnew hmatches hcompile
/-- Child by child. -/
theorem exists_forall₂_yieldsMatch (other : Compiler M) : (children : List (Child M)) →
    Child.AllPlain children → Child.AllDistinct children → {old : List Fragment} →
      List.Forall₂ compiler.Yields children old →
        ∃ new, List.Forall₂ other.YieldsMatch (Child.allPruned children) new ∧
          List.Forall₂ Fragment.Matches new old
  | [], _, _, _, .nil => ⟨[], .nil, .nil⟩
  | .element element :: rest, ⟨hplain, hrestPlain⟩, ⟨hdistinct, hrestDistinct⟩, _,
      .cons hfirst hrest => by
      obtain ⟨found, hfound, hmatch⟩ :=
        exists_yieldsMatch_element other element hplain hdistinct hfirst
      obtain ⟨new, hnew, hmatches⟩ :=
        exists_forall₂_yieldsMatch other rest hrestPlain hrestDistinct hrest
      exact ⟨found :: new, .cons hfound hnew, .cons hmatch hmatches⟩
  | .fragment found :: rest, ⟨hplain, hrestPlain⟩, ⟨hdistinct, hrestDistinct⟩, _,
      .cons hfirst hrest => by
      obtain ⟨new, hnew, hmatches⟩ :=
        exists_forall₂_yieldsMatch other rest hrestPlain hrestDistinct hrest
      obtain ⟨record, rfl⟩ := hplain
      cases (hfirst : Fragment.options record = _)
      exact ⟨.options record :: new, .cons ⟨rfl, rfl⟩ hnew,
        .cons (.options record (hdistinct record rfl)) hmatches⟩
end

end Compiler

/-! ## 6. The machine of the pruned tree -/

/-- **Pruning changes no machine.** When a tree builds, whatever the policy, the pruned tree builds
where ambiguities are rejected. Its configuration is equal to that of the whole tree, up to the
order of tables, and its implementations have the same names and do the same. -/
theorem build_pruned (compiler : Compiler Blueprint)
    (blueprint : compiler.construct = Blueprint.mk) {root : Element Blueprint} (plain : root.Plain)
    (distinct : root.Distinct) {machine : Blueprint}
    (built : (compiler.build root).result = .ok machine) (run : Nat) :
    ∃ pruned, (((compiler.under .reject).inRun run).build root.pruned).result = .ok pruned ∧
      pruned.config.same machine.config = true ∧ pruned.options.Again machine.options := by
  obtain ⟨attributes, children, old, rfl, hplain, hyields, -, rfl⟩ :=
    Compiler.inv_of_build plain built
  obtain ⟨hattributes, hdistinct⟩ := distinct
  obtain ⟨new, hnew, hmatches⟩ := Compiler.exists_forall₂_yieldsMatch
    ((compiler.under .reject).inRun run) children hplain hdistinct hyields
  have hsame := Compile.same_machineOf run compiler.run compiler.patcher hattributes hmatches
  refine ⟨_, Compiler.result_build_eq_ok_iff.mpr (Compiler.result_evaluate_pruned hnew
    (Compiler.result_compile_machine_eq_ok_iff.mpr
      ⟨fun _ => Role.violations_survivors_inMachine new, rfl⟩)), ?_⟩
  have hconstruct : ((compiler.under .reject).inRun run).construct = Blueprint.mk := blueprint
  rw [hconstruct, blueprint]
  exact hsame

/-- A machine with everything that its parents lose: a second options record, a state without an id,
a state whose id comes again, and in the last state an event and an invoke block too many. -/
def clutteredMarkup : Element Blueprint :=
  ((Element.machine "m" "a").options
      { context := some (.obj [("count", .num (.int 0))])
        mutations := [("bump", .given 0 fun _ => .obj [])] }).append
    [.element (.ofTag (.builtin .state)), .element ((Element.state "a").child (.state "x")),
      .fragment (.options {}),
      .element ((Element.state "a").childElements
        [.transition "go" "x", .invoke "load", .transition "go" "y", .invoke "save"])]

theorem build_pruned_clutteredMarkup :
    ∃ machine, (Compiler.blueprint.build clutteredMarkup).result = .ok machine ∧
      ∃ pruned, (((Compiler.blueprint.under .reject).inRun 1).build clutteredMarkup.pruned).result
          = .ok pruned ∧
        pruned.config.same machine.config = true ∧ pruned.options.Again machine.options := by
  have hplain : clutteredMarkup.Plain := by
    simp [clutteredMarkup, Child.Plain]
  have hdistinct : clutteredMarkup.Distinct := by
    simp [clutteredMarkup, Child.AllDistinct, OptionsRecord.Distinct]
  exact ⟨_, rfl, build_pruned Compiler.blueprint rfl hplain hdistinct rfl 1⟩

end Statechart
