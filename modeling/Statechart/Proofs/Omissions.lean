/-
`Proofs/Omissions.lean` -- what the run of one element does not say.

Two kinds of notice come before the parts of an element are looked at: that the element is being
compiled, and that it drops an options record. What is folded, checked and assembled behind them
speaks of neither. So a notice of these kinds is accounted for once it is known where it was given
first, whatever else the run has to say.
-/
import Statechart.Compile.Compiler
import Statechart.Proofs.Runs

set_option autoImplicit false

namespace Statechart

/-! ## 1. Kinds of notice that a run omits -/

/-- Whether a notice comes before the parts of an element are looked at. -/
def Notice.isPreliminary : Notice → Bool
  | .compiling _ _ => true
  | .optionsIgnored => true
  | _ => false

namespace Compilation

variable {α β : Type} {kind : Notice → Bool}

/-- A run that gives no notice of a kind. -/
def Omits (kind : Notice → Bool) (run : Compilation α) : Prop :=
  ∀ notice ∈ run.log, kind notice = false

theorem omits_pure (a : α) : (pure a : Compilation α).Omits kind := by
  intro notice hnotice
  exact absurd hnotice List.not_mem_nil

theorem omits_throw (error : CompileError) : (throw error : Compilation α).Omits kind := by
  intro notice hnotice
  exact absurd hnotice List.not_mem_nil

/-- A step that always succeeds omits what none of its notices is. -/
theorem omits_lift {step : Logged α} (h : ∀ notice ∈ step.log, kind notice = false) :
    Omits kind (ExceptT.lift step) := by
  rwa [Omits, log_lift]

/-- A step whose notices are all made in one way omits what is not made in that way. -/
theorem omits_map {value : α} {make : β → Notice} (h : ∀ b, kind (make b) = false)
    {about : List β} :
    Omits kind (ExceptT.lift { value, log := about.map make } : Compilation α) := by
  refine omits_lift fun notice hnotice => ?_
  obtain ⟨b, -, rfl⟩ := List.mem_map.mp hnotice
  exact h b

/-- A sequence omits what each of its steps omits. -/
theorem Omits.bind {first : Compilation α} {next : α → Compilation β} (h : first.Omits kind)
    (hnext : ∀ a, (next a).Omits kind) : (first >>= next).Omits kind := by
  intro notice hnotice
  cases hfirst : first.result with
  | ok a =>
      rw [log_bind_of_ok hfirst] at hnotice
      rcases List.mem_append.mp hnotice with hmem | hmem
      · exact h notice hmem
      · exact hnext a notice hmem
  | error error =>
      rw [log_bind_of_error hfirst] at hnotice
      exact h notice hnotice

end Compilation

open Compilation (Omits omits_pure omits_throw omits_lift omits_map)

/-! ## 2. One element -/

section Later

variable {kind : Notice → Bool} (later : ∀ notice : Notice, notice.isPreliminary = false →
  kind notice = false)

include later

namespace Siblings

/-- A keyed fold speaks of what it skips and what it replaces only. -/
theorem omits_mergeKeyed {α : Type} {skipped : Notice} {replaced : String → Notice}
    (hskipped : skipped.isPreliminary = false)
    (hreplaced : ∀ key, (replaced key).isPreliminary = false)
    (entries : List (Option String × α)) :
    Omits kind (ExceptT.lift (mergeKeyed skipped replaced entries)) := by
  refine omits_lift fun notice hnotice => ?_
  rw [log_mergeKeyed] at hnotice
  rcases mem_log_foldlM_place hnotice with rfl | ⟨key, rfl⟩
  · exact later _ hskipped
  · exact later _ (hreplaced key)

theorem omits_mergeStates (children : List Fragment) :
    Omits kind (ExceptT.lift (mergeStates children)) :=
  omits_mergeKeyed later rfl (fun _ => rfl) _

theorem omits_mergeTransitions (children : List Fragment) :
    Omits kind (ExceptT.lift (mergeTransitions children)) :=
  omits_mergeKeyed later rfl (fun _ => rfl) _

/-- Enforcing checks speaks of violations only. -/
theorem omits_enforce (checks : List Check) (policy : Policy) (node : String)
    (children : List Fragment) : Omits kind (enforce checks policy node children) := by
  cases policy with
  | permissive | warn => exact omits_map fun _ => later _ rfl
  | reject =>
      rw [enforce]
      split
      · exact omits_pure ()
      · exact omits_throw _

end Siblings

namespace Compile

theorem omits_invoke (attributes : Attributes) (children : List Fragment) :
    Omits kind (ExceptT.lift (invoke attributes children)) := by
  have hrecords : Omits kind (ExceptT.lift (Siblings.mergeRecords children)) :=
    omits_map fun _ => later _ rfl
  rw [Omits, Compilation.log_lift] at hrecords ⊢
  rwa [log_invoke]

theorem omits_state (policy : Policy) (attributes : Attributes) (children : List Fragment) :
    Omits kind (state policy attributes children) := by
  refine (Siblings.omits_enforce later _ _ _ _).bind fun _ => ?_
  refine (Siblings.omits_mergeTransitions later children).bind fun on => ?_
  exact (Siblings.omits_mergeStates later children).bind fun states => omits_pure _

theorem omits_configNotices (node : String) (attributes : Attributes) :
    Omits kind (ExceptT.lift (Logged.notices (configNotices node attributes))) := by
  refine omits_lift fun notice hnotice => ?_
  have hconfig : notice ∈ configNotices node attributes := hnotice
  rw [configNotices] at hconfig
  split at hconfig
  · exact absurd hconfig List.not_mem_nil
  · exact absurd hconfig List.not_mem_nil
  · rw [List.mem_singleton.mp hconfig]
    exact later _ rfl

/-- A machine omits what splitting its children omits. -/
theorem omits_machine {children : List Fragment}
    (hsplit : Omits kind (ExceptT.lift (splitOptions children))) (run : Nat) (patcher : Patcher)
    (policy : Policy) (attributes : Attributes) :
    Omits kind (machine run patcher policy attributes children) := by
  refine hsplit.bind fun split => ?_
  refine (Siblings.omits_enforce later _ _ _ _).bind fun _ => ?_
  refine (omits_configNotices later _ _).bind fun _ => ?_
  refine (Siblings.omits_mergeStates later _).bind fun states => ?_
  refine (omits_map fun _ => later _ rfl).bind fun _ => ?_
  refine (omits_map fun _ => later _ rfl).bind fun derived => ?_
  refine (omits_map fun _ => later _ rfl).bind fun actions => ?_
  refine (omits_lift fun notice hnotice => ?_).bind fun _ => omits_pure _
  rw [List.mem_singleton.mp hnotice]
  exact later _ rfl

end Compile

end Later

end Statechart
