/-
`Compilation.lean` -- a run of the compiler: it gives notices and may fail.

A failed run still has the notices that were given before it failed. `result` and `log` are the two
sides of a run, and each way of building a run has a lemma for each side.
-/
import Statechart.Notice

set_option autoImplicit false

namespace Statechart

/-! ## 1. Failure -/

/-- Why a compilation ended without a result. -/
inductive CompileError where
  /-- No tag has this name. -/
  | unrecognizedTag (name : String)
  /-- An element has a machine among its children. -/
  | nestedMachine (parent : String)
  /-- The root compiled to a fragment. -/
  | expectedMachine (tag : String)
  /-- A component gave up. -/
  | componentFailed (reason : String)
  /-- The policy rejects these violations of one element. -/
  | ambiguousStructure (violations : List Violation)
  deriving DecidableEq

/-- The sentence that reports an error. -/
def CompileError.message : CompileError → String
  | .unrecognizedTag name => "No tag corresponding to '" ++ name ++ "'"
  | .nestedMachine parent => "Element '" ++ parent ++ "' has a machine among its children"
  | .expectedMachine tag =>
      "Element '" ++ tag ++ "' compiled to a fragment where a machine was expected"
  | .componentFailed reason => "Component failed: " ++ reason
  | .ambiguousStructure violations =>
      "Ambiguous structure (" ++ toString violations.length ++ " violations): "
        ++ "; ".intercalate (violations.map Violation.message)

/-! ## 2. Steps that report and may fail -/

/-- A step that reports and may fail. Its notices up to a failure are kept. -/
abbrev Compilation (α : Type) : Type := ExceptT CompileError Logged α

namespace Compilation

variable {α β : Type}

/-- The result of a compilation. -/
def result (compilation : Compilation α) : Except CompileError α := compilation.run.value

/-- The notices of a compilation. -/
def log (compilation : Compilation α) : List Notice := compilation.run.log

/-- Give one notice. -/
def notice (notice : Notice) : Compilation Unit := ExceptT.lift (Logged.notice notice)

@[simp] theorem result_pure (a : α) : (pure a : Compilation α).result = .ok a := rfl

@[simp] theorem log_pure (a : α) : (pure a : Compilation α).log = [] := rfl

@[simp] theorem result_throw (error : CompileError) :
    (throw error : Compilation α).result = .error error := rfl

@[simp] theorem log_throw (error : CompileError) : (throw error : Compilation α).log = [] := rfl

@[simp] theorem result_lift (step : Logged α) :
    result (ExceptT.lift step) = .ok step.value := rfl

@[simp] theorem log_lift (step : Logged α) :
    log (ExceptT.lift step) = step.log := by
  show step.log ++ [] = step.log
  exact List.append_nil step.log

/-- A sequence gives the first step's result to the second, or fails as the first does. -/
theorem result_bind (first : Compilation α) (next : α → Compilation β) :
    (first >>= next).result = first.result.bind fun a => (next a).result := by
  show (first.run >>= ExceptT.bindCont next : Logged _).value = _
  rw [Logged.value_bind, result]
  cases first.run.value with
  | ok a => rfl
  | error error => rfl

/-- A sequence succeeds exactly when both steps do. -/
theorem result_bind_eq_ok_iff {first : Compilation α} {next : α → Compilation β} {b : β} :
    (first >>= next).result = .ok b ↔ ∃ a, first.result = .ok a ∧ (next a).result = .ok b := by
  rw [result_bind]
  cases first.result with
  | ok a =>
      constructor
      · intro h
        exact ⟨a, rfl, h⟩
      · rintro ⟨_, ha, h⟩
        cases ha
        exact h
  | error error =>
      constructor
      · intro h
        exact absurd h (by simp [Except.bind])
      · rintro ⟨_, h, _⟩
        exact absurd h (by simp)

/-- A sequence reports what the first step does and, if that succeeds, what the second does. -/
theorem log_bind (first : Compilation α) (next : α → Compilation β) :
    (first >>= next).log = first.log ++ match first.result with
      | .ok a => (next a).log
      | .error _ => [] := by
  show (first.run >>= ExceptT.bindCont next : Logged _).log = _
  rw [Logged.log_bind, log, result]
  cases first.run.value with
  | ok a => rfl
  | error error => rfl

end Compilation

end Statechart
