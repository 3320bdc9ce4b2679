/-
`Proofs/Findings.lean` -- what there is to find among siblings, and what enforcing comes to.

Keys should be present and distinct, and there should be one invoke block at most. Here is listed
what is wrong with children, from how often each key comes in the list of them and without counting
in any table. The checks find just that: nothing is left out, nothing is found twice, and the order
is the one of the list. So rejecting ends in the whole list or lets pass, and the other policies
report the list and go on.
-/
import Statechart.Proofs.Failure
import Statechart.Proofs.Folds

set_option autoImplicit false

namespace Statechart.Siblings

/-! ## 1. What there is to find -/

/-- What is wrong with keys that should be present and distinct: `missing` once for each that is
absent, and then, in order of first arrival, `duplicate` for each key that comes twice or more
often, with how often it comes. -/
def keyFindings (missing : Violation) (duplicate : String → Nat → Violation)
    (keys : List (Option String)) : List Violation :=
  List.replicate (keys.count none) missing
    ++ ((keys.filterMap id).eraseDups.filter fun key => 2 ≤ keys.count (some key)).map fun key =>
        duplicate key (keys.count (some key))

/-- What is wrong with the ids of states. -/
def idFindings (children : List Fragment) : List Violation :=
  keyFindings .missingStateId .duplicateStateId (stateIds children)

/-- What is wrong with the events of transitions. -/
def eventFindings (children : List Fragment) : List Violation :=
  keyFindings .missingEvent .duplicateEvent (events children)

/-- What is wrong with the number of invoke blocks. -/
def invokeFindings (children : List Fragment) : List Violation :=
  if 2 ≤ (invokes children).length then [.multipleInvokes (invokes children).length] else []

/-- Every state has an id that no other state has. -/
def OrderlyIds (children : List Fragment) : Prop :=
  none ∉ stateIds children ∧ (stateIds children).Nodup

/-- Every transition has an event that no other transition has. -/
def OrderlyEvents (children : List Fragment) : Prop :=
  none ∉ events children ∧ (events children).Nodup

/-! ## 2. What the checks find -/

/-- A check of keys finds what is wrong with them. -/
theorem keyViolations_eq (missing : Violation) (duplicate : String → Nat → Violation)
    (keys : List (Option String)) :
    keyViolations missing duplicate keys = keyFindings missing duplicate keys := by
  have hmissing : (keys.filter Option.isNone).map (fun _ => missing)
      = List.replicate (keys.count none) missing := by
    rw [List.map_const', ← List.countP_eq_length_filter, List.count]
    congr 2
    funext key?
    cases key? <;> rfl
  rw [keyViolations, hmissing, repeated_filterMap_id, List.map_map, keyFindings]
  rfl

example : keyViolations .missingStateId .duplicateStateId
    [some "b", none, some "a", some "a", none, some "b", some "a", some "c"]
      = [.missingStateId, .missingStateId, .duplicateStateId "b" 2, .duplicateStateId "a" 3] := by
  decide

theorem violations_stateChecks (children : List Fragment) :
    violations stateChecks children
      = idFindings children ++ eventFindings children ++ invokeFindings children := by
  simp only [violations, stateChecks, List.flatMap_cons, List.flatMap_nil, List.append_nil,
    uniqueStateIds, uniqueEvents, keyViolations_eq, List.append_assoc]
  rfl

theorem violations_machineChecks (children : List Fragment) :
    violations machineChecks children = idFindings children := by
  simp only [violations, machineChecks, List.flatMap_cons, List.flatMap_nil, List.append_nil,
    uniqueStateIds, keyViolations_eq]
  rfl

/-- There is nothing to find where every id and every event is there once and no invoke block is
passed over. -/
theorem stateFindings_eq_nil_iff (children : List Fragment) :
    idFindings children ++ eventFindings children ++ invokeFindings children = [] ↔
      OrderlyIds children ∧ OrderlyEvents children ∧ (invokes children).length ≤ 1 := by
  rw [← violations_stateChecks, violations_stateChecks_eq_nil_iff, uniqueKeys_iff, uniqueKeys_iff]
  rfl

theorem idFindings_eq_nil_iff (children : List Fragment) :
    idFindings children = [] ↔ OrderlyIds children := by
  rw [idFindings, ← keyViolations_eq, keyViolations_eq_nil_iff, uniqueKeys_iff]
  rfl

/-! ## 3. What enforcing comes to -/

/-- Under the name of an element, checks on its children are enforced as `findings`, which is what
is wrong with children that are not `orderly`. -/
structure Enforced (checks : List Check) (node : String) (children : List Fragment)
    (orderly : Prop) (findings : List Violation) : Prop where
  /-- There is something wrong with children that are not orderly, and with no others. -/
  findings_eq_nil_iff : findings = [] ↔ orderly
  /-- Rejecting lets orderly children pass, and no others. -/
  passes_iff : (enforce checks .reject node children).result = .ok () ↔ orderly
  /-- Any others it rejects with all that is wrong with them. -/
  rejects : ¬orderly →
    (enforce checks .reject node children).result = .error (.ambiguousStructure findings)
  /-- It reports nothing. -/
  log_reject : (enforce checks .reject node children).log = []
  /-- The other policies let all children pass. -/
  passes : ∀ policy, policy ≠ .reject → (enforce checks policy node children).result = .ok ()
  /-- They report all that is wrong: one for debugging, -/
  log_permissive : (enforce checks .permissive node children).log
    = findings.map (.violation .debug node)
  /-- and the other as warnings. -/
  log_warn : (enforce checks .warn node children).log = findings.map (.violation .warn node)

/-- Checks are enforced as what they find. -/
theorem enforced_of_violations {checks : List Check} {children : List Fragment} {orderly : Prop}
    {findings : List Violation} (hfound : violations checks children = findings)
    (horderly : findings = [] ↔ orderly) (node : String) :
    Enforced checks node children orderly findings := by
  subst hfound
  have hpasses : Passes checks .reject children ↔ orderly :=
    ⟨fun h => horderly.mp (h rfl), fun h _ => horderly.mpr h⟩
  refine ⟨horderly, ?passesIff, ?rejects, ?quiet, ?passes, ?debug, ?warn⟩
  case passesIff => exact result_enforce_eq_ok_iff.trans hpasses
  case rejects =>
    intro hdisorder
    exact result_enforce_of_not_passes (fun h => hdisorder (hpasses.mp h)) node
  case quiet =>
    rw [enforce]
    split
    · exact Compilation.log_pure ()
    · exact Compilation.log_throw _
  case passes =>
    intro policy hpolicy
    exact result_enforce_eq_ok_iff.mpr fun h => absurd h hpolicy
  case debug => exact Compilation.log_lift _
  case warn => exact Compilation.log_lift _

/-- Whatever the children of an element are, enforcing the checks of a state rejects or reports all
that is wrong with their ids, their events and their number of invoke blocks, in that order, and
enforcing those of a machine all that is wrong with their ids. -/
theorem enforce_reports_findings (node : String) (children : List Fragment) :
    Enforced stateChecks node children
        (OrderlyIds children ∧ OrderlyEvents children ∧ (invokes children).length ≤ 1)
        (idFindings children ++ eventFindings children ++ invokeFindings children) ∧
      Enforced machineChecks node children (OrderlyIds children) (idFindings children) :=
  ⟨enforced_of_violations (violations_stateChecks children) (stateFindings_eq_nil_iff children)
      node,
    enforced_of_violations (violations_machineChecks children) (idFindings_eq_nil_iff children)
      node⟩

end Statechart.Siblings
