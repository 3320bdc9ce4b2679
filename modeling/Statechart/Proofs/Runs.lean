/-
`Proofs/Runs.lean` -- sequences of compilations, one at a time and two side by side.

The first part says what a sequence comes to when its first step is known to succeed or to fail. The
second part relates two runs that give the same notices and end alike: with the same error, or with
values in a given relation. Running alike is kept by sequencing.
-/
import Statechart.Compilation

set_option autoImplicit false

namespace Statechart

namespace Compilation

variable {α α' β β' : Type}

/-! ## 1. One run -/

/-- Behind a step that succeeds, the result is that of the rest. -/
theorem result_bind_of_ok {first : Compilation α} {a : α} (h : first.result = .ok a)
    (next : α → Compilation β) : (first >>= next).result = (next a).result := by
  rw [result_bind, h]
  rfl

/-- Behind a step that fails, the result is that failure. -/
theorem result_bind_of_error {first : Compilation α} {error : CompileError}
    (h : first.result = .error error) (next : α → Compilation β) :
    (first >>= next).result = .error error := by
  rw [result_bind, h]
  rfl

/-- Behind a step that succeeds, the notices of the rest follow. -/
theorem log_bind_of_ok {first : Compilation α} {a : α} (h : first.result = .ok a)
    (next : α → Compilation β) : (first >>= next).log = first.log ++ (next a).log := by
  rw [log_bind, h]

/-- Behind a step that fails, no notice follows. -/
theorem log_bind_of_error {first : Compilation α} {error : CompileError}
    (h : first.result = .error error) (next : α → Compilation β) :
    (first >>= next).log = first.log := by
  rw [log_bind, h, List.append_nil]

/-! ## 2. Two runs -/

/-- Two results that are the same error, or values in the relation. -/
inductive EndAlike (rel : α → β → Prop) :
    Except CompileError α → Except CompileError β → Prop
  | ok {a : α} {b : β} (related : rel a b) : EndAlike rel (.ok a) (.ok b)
  | error (error : CompileError) : EndAlike rel (.error error) (.error error)

/-- A result ends like itself. -/
theorem EndAlike.refl {rel : α → α → Prop} (h : ∀ a, rel a a) (result : Except CompileError α) :
    EndAlike rel result result := by
  cases result with
  | ok a => exact .ok (h a)
  | error error => exact .error error

/-- Two runs that give the same notices and end alike. -/
structure Alike (rel : α → β → Prop) (first : Compilation α) (second : Compilation β) : Prop where
  result : EndAlike rel first.result second.result
  log : first.log = second.log

/-- A run is like itself. -/
theorem Alike.refl {rel : α → α → Prop} (h : ∀ a, rel a a) (run : Compilation α) :
    Alike rel run run :=
  ⟨EndAlike.refl h run.result, rfl⟩

/-- Values that end alike are related. -/
theorem EndAlike.related {rel : α → β → Prop} {result : Except CompileError α}
    {result' : Except CompileError β} (h : EndAlike rel result result') {a : α} {b : β}
    (ha : result = .ok a) (hb : result' = .ok b) : rel a b := by
  subst ha
  subst hb
  cases h with
  | ok related => exact related

/-- What follows for the values that two results come to follows for the results. -/
theorem EndAlike.imp {rel rel' : α → β → Prop} {result : Except CompileError α}
    {result' : Except CompileError β} (h : EndAlike rel result result')
    (himp : ∀ a b, result = .ok a → result' = .ok b → rel a b → rel' a b) :
    EndAlike rel' result result' := by
  cases h with
  | ok related => exact .ok (himp _ _ rfl rfl related)
  | error error => exact .error error

/-- What is made of one result in two ways ends alike. -/
theorem EndAlike.map {rel : β → β' → Prop} {f : α → β} {g : α → β'} (hrel : ∀ a, rel (f a) (g a))
    (result : Except CompileError α) : EndAlike rel (result.map f) (result.map g) := by
  cases result with
  | ok a => exact .ok (hrel a)
  | error error => exact .error error

theorem Alike.imp {rel rel' : α → β → Prop} (himp : ∀ a b, rel a b → rel' a b)
    {first : Compilation α} {second : Compilation β} (h : Alike rel first second) :
    Alike rel' first second :=
  ⟨h.result.imp fun a b _ _ => himp a b, h.log⟩

/-- Runs that end with equal values and give the same notices are equal. -/
theorem Alike.eq {first second : Compilation α} (h : Alike Eq first second) : first = second := by
  have hvalue : ∀ {result result' : Except CompileError α}, EndAlike Eq result result' →
      result = result' := by
    intro result result' hend
    cases hend with
    | ok related => exact congrArg Except.ok related
    | error error => rfl
  exact Logged.ext (hvalue h.result) h.log

/-- Where alike runs go on alike, the sequences are alike. -/
theorem Alike.bind {rel : α → α' → Prop} {rel' : β → β' → Prop} {first : Compilation α}
    {second : Compilation α'} {next : α → Compilation β} {next' : α' → Compilation β'}
    (h : Alike rel first second) (hnext : ∀ a a', rel a a' → Alike rel' (next a) (next' a')) :
    Alike rel' (first >>= next) (second >>= next') := by
  have hlog := h.log
  generalize hfirst : first.result = result, hsecond : second.result = result' at *
  have hend : EndAlike rel result result' := hfirst ▸ hsecond ▸ h.result
  cases hend with
  | ok related =>
      have hrest := hnext _ _ related
      constructor
      · rw [result_bind_of_ok hfirst, result_bind_of_ok hsecond]
        exact hrest.result
      · rw [log_bind_of_ok hfirst, log_bind_of_ok hsecond, hlog, hrest.log]
  | error error =>
      constructor
      · rw [result_bind_of_error hfirst, result_bind_of_error hsecond]
        exact .error error
      · rw [log_bind_of_error hfirst, log_bind_of_error hsecond, hlog]

end Compilation

end Statechart
