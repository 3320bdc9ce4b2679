/-
`Proofs/Success.lean` -- when a compilation succeeds, and with what.

For every step of the compiler one equivalence: it succeeds with a value exactly when its checks let
it pass and the value is the one that its parts assemble. The values are policy-free, and the log
has no part in them. Later statements about compiled trees rest on these and open no step again.
-/
import Mathlib.Data.List.Forall2
import Statechart.Compile.Compiler
import Statechart.Proofs.Runs

set_option autoImplicit false

namespace Statechart

/-! ## 1. Checks -/

namespace Siblings

/-- Whether a policy lets children pass the checks. -/
def Passes (checks : List Check) (policy : Policy) (children : List Fragment) : Prop :=
  policy = .reject → violations checks children = []

/-- Enforcing succeeds exactly where the policy lets pass. -/
theorem result_enforce_eq_ok_iff {checks : List Check} {policy : Policy} {node : String}
    {children : List Fragment} {u : Unit} :
    (enforce checks policy node children).result = .ok u ↔ Passes checks policy children := by
  cases policy with
  | permissive => exact ⟨fun _ => nofun, fun _ => rfl⟩
  | warn => exact ⟨fun _ => nofun, fun _ => rfl⟩
  | reject =>
      by_cases h : violations checks children = []
      · rw [enforce, if_pos h]
        exact ⟨fun _ _ => h, fun _ => rfl⟩
      · rw [enforce, if_neg h]
        exact ⟨fun hresult => absurd hresult nofun, fun hpass => absurd (hpass rfl) h⟩

/-- Enforcing depends on what is found, and on nothing else in the children. -/
theorem enforce_congr {checks : List Check} {left right : List Fragment}
    (h : violations checks left = violations checks right) (policy : Policy) (node : String) :
    enforce checks policy node left = enforce checks policy node right := by
  unfold enforce
  rw [h]

end Siblings

/-! ## 2. States and machines -/

/-- A step that always succeeds and is followed by another. -/
theorem Compilation.result_lift_bind {α β : Type} (step : Logged α) (next : α → Compilation β) :
    (ExceptT.lift step >>= next : Compilation β).result = (next step.value).result :=
  Compilation.result_bind_of_ok (Compilation.result_lift step) next

/-- What is made of a result is there exactly when the result is. -/
theorem Compilation.map_eq_ok_iff {α β : Type} {result : Except CompileError α} {f : α → β}
    {b : β} : result.map f = .ok b ↔ ∃ a, result = .ok a ∧ b = f a := by
  cases result with
  | ok a =>
      constructor
      · intro h
        exact ⟨a, rfl, (Except.ok.inj h).symm⟩
      · rintro ⟨_, ha, rfl⟩
        cases ha
        rfl
  | error error =>
      constructor
      · intro h
        cases h
      · rintro ⟨_, h, _⟩
        cases h

namespace Compile

/-- The state that attributes and compiled children make. -/
def stateOf (attributes : Attributes) (children : List Fragment) : StateNode :=
  assembleState attributes (Siblings.mergeTransitions children).value
    (Siblings.firstInvoke? children) (Siblings.mergeStates children).value

/-- A state ends as its check does, and then with what its parts make. -/
theorem result_state (policy : Policy) (attributes : Attributes) (children : List Fragment) :
    (state policy attributes children).result =
      (Siblings.enforce Siblings.stateChecks policy ((stateId? attributes).getD "state")
        children).result.map fun _ => stateOf attributes children := by
  rw [state, Compilation.result_bind]
  cases (Siblings.enforce Siblings.stateChecks policy _ children).result with
  | error error => rfl
  | ok _ =>
      rw [Except.bind, Compilation.result_lift_bind, Compilation.result_lift_bind]
      rfl

theorem result_state_eq_ok_iff {policy : Policy} {attributes : Attributes}
    {children : List Fragment} {node : StateNode} :
    (state policy attributes children).result = .ok node ↔
      Siblings.Passes Siblings.stateChecks policy children ∧
        node = stateOf attributes children := by
  rw [result_state, Compilation.map_eq_ok_iff]
  simp only [Siblings.result_enforce_eq_ok_iff, exists_const]

/-- The machine that attributes and compiled children make in a run. -/
def machineOf (run : Nat) (patcher : Patcher) (attributes : Attributes)
    (children : List Fragment) : Blueprint :=
  let options := (SplitChildren.leading? children).getD {}
  { config := assembleConfig attributes options
      (Siblings.mergeStates (SplitChildren.withoutOptions children)).value
    options := assembleOptions options
      (options.actions.extend (deriveActions run patcher options.mutations).value) }

/-- A machine ends as its check does, and then with what its parts make. -/
theorem result_machine (run : Nat) (patcher : Patcher) (policy : Policy) (attributes : Attributes)
    (children : List Fragment) :
    (machine run patcher policy attributes children).result =
      (Siblings.enforce Siblings.machineChecks policy (machineName attributes)
        (SplitChildren.withoutOptions children)).result.map fun _ =>
          machineOf run patcher attributes children := by
  rw [machine, Compilation.result_lift_bind, Compilation.result_bind]
  show Except.bind (Siblings.enforce Siblings.machineChecks policy (machineName attributes)
    (SplitChildren.withoutOptions children)).result _ = _
  cases (Siblings.enforce Siblings.machineChecks policy _ _).result with
  | error error => rfl
  | ok _ =>
      -- the steps behind the check always succeed and add nothing but notices
      simp only [Except.bind, Compilation.result_lift_bind]
      rfl

theorem result_machine_eq_ok_iff {run : Nat} {patcher : Patcher} {policy : Policy}
    {attributes : Attributes} {children : List Fragment} {blueprint : Blueprint} :
    (machine run patcher policy attributes children).result = .ok blueprint ↔
      Siblings.Passes Siblings.machineChecks policy (SplitChildren.withoutOptions children) ∧
        blueprint = machineOf run patcher attributes children := by
  rw [result_machine, Compilation.map_eq_ok_iff]
  simp only [Siblings.result_enforce_eq_ok_iff, exists_const]

end Compile

/-! ## 3. Elements and trees -/

namespace Compiler

variable {M : Type} {compiler : Compiler M}

/-- The notice that an element is being compiled changes no result. -/
theorem result_compile (tag : Tag M) (attributes : Attributes) (children : List Fragment) :
    (compiler.compile tag attributes children).result =
      (match tag with
        | .builtin builtin => compiler.compileBuiltin attributes children builtin
        | .custom component => component { attributes, children }).result :=
  Compilation.result_lift_bind _ _

theorem result_compile_machine_eq_ok_iff {attributes : Attributes} {children : List Fragment}
    {output : Output M} :
    (compiler.compile (.builtin .machine) attributes children).result = .ok output ↔
      Siblings.Passes Siblings.machineChecks compiler.settings.duplicates
          (SplitChildren.withoutOptions children) ∧
        output =
          let compiled := Compile.machineOf compiler.run compiler.patcher attributes children
          .machine (compiler.construct compiled.config compiled.options) := by
  rw [result_compile]
  simp only [compileBuiltin]
  rw [Compilation.result_bind_eq_ok_iff]
  constructor
  · rintro ⟨blueprint, hmachine, hrest⟩
    obtain ⟨hpass, rfl⟩ := Compile.result_machine_eq_ok_iff.mp hmachine
    exact ⟨hpass, (Except.ok.inj hrest).symm⟩
  · rintro ⟨hpass, rfl⟩
    exact ⟨_, Compile.result_machine_eq_ok_iff.mpr ⟨hpass, rfl⟩, rfl⟩

theorem result_compile_state_eq_ok_iff {attributes : Attributes} {children : List Fragment}
    {output : Output M} :
    (compiler.compile (.builtin .state) attributes children).result = .ok output ↔
      Siblings.Passes Siblings.stateChecks compiler.settings.duplicates children ∧
        output = .fragment (.state (Compile.stateOf attributes children)) := by
  rw [result_compile]
  simp only [compileBuiltin]
  rw [Compilation.result_bind_eq_ok_iff]
  constructor
  · rintro ⟨node, hstate, hrest⟩
    obtain ⟨hpass, rfl⟩ := Compile.result_state_eq_ok_iff.mp hstate
    exact ⟨hpass, (Except.ok.inj hrest).symm⟩
  · rintro ⟨hpass, rfl⟩
    exact ⟨_, Compile.result_state_eq_ok_iff.mpr ⟨hpass, rfl⟩, rfl⟩

/-- No other built-in tag comes to a machine. -/
theorem eq_machine_of_compile {builtin : Builtin} {attributes : Attributes}
    {children : List Fragment} {machine : M}
    (h : (compiler.compile (.builtin builtin) attributes children).result
      = .ok (.machine machine)) : builtin = .machine := by
  cases builtin with
  | machine => rfl
  | state =>
      obtain ⟨-, houtput⟩ := result_compile_state_eq_ok_iff.mp h
      cases houtput
  | transition | invoke | onDone | onError => cases h

/-- No element with a built-in tag comes to an options record. -/
theorem options?_of_compile {builtin : Builtin} {attributes : Attributes}
    {children : List Fragment} {fragment : Fragment}
    (h : (compiler.compile (.builtin builtin) attributes children).result
      = .ok (.fragment fragment)) : fragment.options? = none := by
  cases builtin with
  | machine =>
      obtain ⟨-, houtput⟩ := result_compile_machine_eq_ok_iff.mp h
      cases houtput
  | state =>
      obtain ⟨-, houtput⟩ := result_compile_state_eq_ok_iff.mp h
      cases houtput
      rfl
  | transition | invoke | onDone | onError =>
      cases h
      rfl

/-- What a child is to its parent: the fragment that it is or that it compiles to. -/
def Yields (compiler : Compiler M) : Child M → Fragment → Prop
  | .fragment found, fragment => found = fragment
  | .element element, fragment => (compiler.evaluate element).result = .ok (.fragment fragment)

/-- The children of an element compile exactly when each of them yields a fragment. -/
theorem result_evaluateChildren_eq_ok_iff {parent : String} {children : List (Child M)}
    {fragments : List Fragment} :
    (compiler.evaluateChildren parent children).result = .ok fragments ↔
      List.Forall₂ compiler.Yields children fragments := by
  induction children generalizing fragments with
  | nil =>
      rw [List.forall₂_nil_left_iff]
      exact ⟨fun h => (Except.ok.inj h).symm, fun h => h ▸ rfl⟩
  | cons child rest ih =>
      rw [List.forall₂_cons_left_iff]
      cases child with
      | fragment found =>
          rw [evaluateChildren, Compilation.result_bind_eq_ok_iff]
          constructor
          · rintro ⟨others, hrest, hok⟩
            exact ⟨found, others, rfl, ih.mp hrest, (Except.ok.inj hok).symm⟩
          · rintro ⟨_, others, rfl, hrest, rfl⟩
            exact ⟨others, ih.mpr hrest, rfl⟩
      | element element =>
          rw [evaluateChildren, Compilation.result_bind_eq_ok_iff]
          constructor
          · rintro ⟨output, heval, hok⟩
            cases output with
            -- a nested machine is an error, so this child came to a fragment
            | machine machine => exact absurd hok nofun
            | fragment fragment =>
                obtain ⟨others, hrest, hok⟩ := Compilation.result_bind_eq_ok_iff.mp hok
                exact ⟨fragment, others, heval, ih.mp hrest, (Except.ok.inj hok).symm⟩
          · rintro ⟨fragment, others, heval, hrest, rfl⟩
            refine ⟨.fragment fragment, heval, ?_⟩
            exact Compilation.result_bind_eq_ok_iff.mpr ⟨others, ih.mpr hrest, rfl⟩

theorem result_evaluate_eq_ok_iff {tag : Tag M} {attributes : Attributes}
    {children : List (Child M)} {output : Output M} :
    (compiler.evaluate (.node tag attributes children)).result = .ok output ↔
      ∃ fragments, List.Forall₂ compiler.Yields children fragments ∧
        (compiler.compile tag attributes fragments).result = .ok output := by
  rw [evaluate, Compilation.result_bind_eq_ok_iff]
  simp only [result_evaluateChildren_eq_ok_iff]

theorem result_build_eq_ok_iff {root : Element M} {machine : M} :
    (compiler.build root).result = .ok machine ↔
      (compiler.evaluate root).result = .ok (.machine machine) := by
  rw [build, Compilation.result_bind_eq_ok_iff]
  constructor
  · rintro ⟨output, heval, hok⟩
    cases output with
    | fragment fragment => exact absurd hok nofun
    | machine found => exact Except.ok.inj hok ▸ heval
  · intro heval
    exact ⟨.machine machine, heval, rfl⟩

end Compiler

end Statechart
