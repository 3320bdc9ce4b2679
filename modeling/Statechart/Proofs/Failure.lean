/-
`Proofs/Failure.lean` -- when a tree fails to build, and how.

A run goes through the visits of a tree one by one and ends at the first one where something is
wrong. What is wrong there is the error, and nothing that is visited later is looked at. If nothing
is wrong anywhere the run comes to an output, and it is for the root alone to be a machine.
-/
import Statechart.Proofs.Omissions
import Statechart.Proofs.Visits

set_option autoImplicit false

namespace Statechart

variable {M : Type}

/-! ## 1. Notices that an element is being compiled -/

/-- Whether a notice says that an element is being compiled. -/
def Notice.isCompiling : Notice → Bool
  | .compiling _ _ => true
  | _ => false

namespace Compilation

variable {α β : Type}

/-- The notices of a run that say which elements are being compiled, in order. -/
def dispatches (run : Compilation α) : List Notice := run.log.filter Notice.isCompiling

/-- A run that says of no element that it is being compiled. -/
def Quiet (run : Compilation α) : Prop := run.dispatches = []

theorem dispatches_bind_of_ok {first : Compilation α} {a : α} (h : first.result = .ok a)
    (next : α → Compilation β) :
    (first >>= next).dispatches = first.dispatches ++ (next a).dispatches := by
  rw [dispatches, log_bind_of_ok h, List.filter_append]
  rfl

theorem dispatches_bind_of_error {first : Compilation α} {error : CompileError}
    (h : first.result = .error error) (next : α → Compilation β) :
    (first >>= next).dispatches = first.dispatches := by
  rw [dispatches, log_bind_of_error h]
  rfl

/-- A run is quiet where none of its notices is one. -/
theorem quiet_iff_omits {run : Compilation α} : run.Quiet ↔ run.Omits Notice.isCompiling := by
  rw [Quiet, dispatches, List.filter_eq_nil_iff]
  refine forall₂_congr fun notice _ => ?_
  rw [Bool.not_eq_true]

end Compilation

open Compilation (Quiet)

/-- That an element is being compiled is said before its parts are looked at. -/
theorem Notice.isCompiling_eq_false {notice : Notice} (h : notice.isPreliminary = false) :
    notice.isCompiling = false := by
  cases notice with
  | compiling tag children => exact h
  | _ => rfl

/-! ## 2. One element -/

/-- Where the policy does not let children pass the checks, enforcing them ends in their
violations. -/
theorem Siblings.result_enforce_of_not_passes {checks : List Check} {policy : Policy}
    {children : List Fragment} (h : ¬Passes checks policy children) (node : String) :
    (enforce checks policy node children).result
      = .error (.ambiguousStructure (violations checks children)) := by
  rw [Passes, Classical.not_imp] at h
  obtain ⟨rfl, hfound⟩ := h
  rw [enforce, if_neg hfound]
  rfl

namespace Compiler

variable {compiler : Compiler M}

/-- Compiling an element with a built-in tag is quiet. -/
theorem quiet_compileBuiltin (attributes : Attributes) (children : List Fragment)
    (builtin : Builtin) : Quiet (compiler.compileBuiltin attributes children builtin) := by
  have later : ∀ notice : Notice, notice.isPreliminary = false → notice.isCompiling = false :=
    fun _ => Notice.isCompiling_eq_false
  rw [Compilation.quiet_iff_omits]
  cases builtin with
  | machine =>
      have hsplit : Compilation.Omits Notice.isCompiling (ExceptT.lift (splitOptions children)) :=
        Compilation.omits_map fun _ => rfl
      refine (Compile.omits_machine later hsplit _ _ _ _).bind fun _ => ?_
      exact Compilation.omits_pure _
  | state => exact (Compile.omits_state later _ _ _).bind fun _ => Compilation.omits_pure _
  | transition | onDone | onError => exact Compilation.omits_pure _
  | invoke => exact (Compile.omits_invoke later _ _).bind fun _ => Compilation.omits_pure _

/-- Ambiguities that are not let pass are the error of the element whose children they are among. -/
theorem result_compileBuiltin_of_ambiguities {builtin : Builtin} {children : List Fragment}
    (reject : compiler.settings.duplicates = .reject) (found : builtin.ambiguities children ≠ [])
    (attributes : Attributes) :
    (compiler.compileBuiltin attributes children builtin).result
      = .error (.ambiguousStructure (builtin.ambiguities children)) := by
  have hrefused : ∀ {checks : List Check} {children : List Fragment},
      Siblings.violations checks children ≠ [] →
        ¬Siblings.Passes checks compiler.settings.duplicates children :=
    fun hfound hpass => hfound (hpass reject)
  cases builtin with
  | machine =>
      -- the options record is split off before the check, which fails
      rw [compileBuiltin, Compile.machine]
      refine Compilation.result_bind_of_error ?_ _
      rw [Compilation.result_lift_bind]
      exact Compilation.result_bind_of_error
        (Siblings.result_enforce_of_not_passes (hrefused found) _) _
  | state =>
      rw [compileBuiltin, Compile.state]
      refine Compilation.result_bind_of_error ?_ _
      exact Compilation.result_bind_of_error
        (Siblings.result_enforce_of_not_passes (hrefused found) _) _
  | transition | invoke | onDone | onError => exact absurd rfl found

/-- Without ambiguities, or where they are let pass, a machine comes to a machine and every other
element with a built-in tag to a fragment. -/
theorem exists_result_compileBuiltin {builtin : Builtin} {children : List Fragment}
    (clean : compiler.settings.duplicates = .reject → builtin.ambiguities children = [])
    (attributes : Attributes) :
    ∃ output, (compiler.compileBuiltin attributes children builtin).result = .ok output ∧
      (output.machine?.isSome ↔ builtin = .machine) := by
  cases builtin with
  | machine =>
      have hcompile : (compiler.compile (.builtin .machine) attributes children).result = .ok _ :=
        result_compile_machine_eq_ok_iff.mpr ⟨clean, rfl⟩
      exact ⟨_, (result_compile ..).symm.trans hcompile, iff_of_true rfl rfl⟩
  | state =>
      have hcompile : (compiler.compile (.builtin .state) attributes children).result = .ok _ :=
        result_compile_state_eq_ok_iff.mpr ⟨clean, rfl⟩
      exact ⟨_, (result_compile ..).symm.trans hcompile,
        iff_of_false (by simp [Output.machine?]) nofun⟩
  | transition | invoke | onDone | onError =>
      exact ⟨_, rfl, iff_of_false (by simp [Output.machine?]) nofun⟩

/-! ## 3. Runs through visits -/

/-- A run that goes through visits: to the end if nothing is wrong at any of them, and else as far
as the first fault, in which it ends. At each visit it says that the element is being compiled. -/
inductive GoesThrough {α : Type} (compiler : Compiler M) (visits : List (Visit M))
    (run : Compilation α) : Prop
  | all (clean : ∀ visit ∈ visits, compiler.fault? visit = none) (value : α)
      (result : run.result = .ok value) (said : run.dispatches = visits.map Visit.notice)
  | stops (before : List (Visit M)) (visit : Visit M) (error : CompileError)
      (first : compiler.FirstFault visits before visit error)
      (yields : List.Forall₂ compiler.Yields visit.element.children
        (compiler.fragments visit.element.children))
      (result : run.result = .error error)
      (said : run.dispatches = (before ++ [visit]).map Visit.notice)

/-- A sequence goes through the visits of its first step and then through those of the second. -/
theorem GoesThrough.bind {α β : Type} {visits more : List (Visit M)} {run : Compilation α}
    {next : α → Compilation β} (h : compiler.GoesThrough visits run)
    (hnext : ∀ a, run.result = .ok a → compiler.GoesThrough more (next a)) :
    compiler.GoesThrough (visits ++ more) (run >>= next) := by
  rcases h with ⟨clean, a, hrun, hsaid⟩ | ⟨before, visit, error, first, yields, hrun, hsaid⟩
  · have hresult := Compilation.result_bind_of_ok hrun next
    have hdispatches := Compilation.dispatches_bind_of_ok hrun next
    rcases hnext a hrun with ⟨clean', b, hrest, hsaid'⟩ | ⟨before, visit, error, first, yields,
      hrest, hsaid'⟩
    · refine .all ?_ b (hresult.trans hrest) ?_
      · intro visit hmem
        rcases List.mem_append.mp hmem with hvisits | hmore
        · exact clean visit hvisits
        · exact clean' visit hmore
      · rw [hdispatches, hsaid, hsaid', List.map_append]
    · refine .stops (visits ++ before) visit error (first.append_left clean) yields
        (hresult.trans hrest) ?_
      rw [hdispatches, hsaid, hsaid', List.append_assoc, ← List.map_append]
  · -- the first step ends in a fault, and the second is never reached
    exact .stops before visit error (first.append more) yields
      (Compilation.result_bind_of_error hrun next)
      ((Compilation.dispatches_bind_of_error hrun next).trans hsaid)

/-- What a sequence does with a value behind its first step is no matter of visits. -/
theorem GoesThrough.map {α β : Type} {visits : List (Visit M)} {run : Compilation α}
    (h : compiler.GoesThrough visits run) (f : α → β) :
    compiler.GoesThrough visits (run >>= fun a => pure (f a)) := by
  rw [← List.append_nil visits]
  exact h.bind fun a _ => .all nofun (f a) rfl rfl

/-- What becomes of an output in its place: below another element it must not be a machine. -/
def settle (parent? : Option String) (output : Output M) : Compilation (Output M) :=
  match parent?, output with
  | some parent, .machine _ => throw (.nestedMachine parent)
  | _, output => return output

/-- Where no machine stands below another element an output stays what it is. -/
theorem settle_eq_pure {parent? : Option String} {output : Output M}
    (h : output.machine?.isSome → parent? = none) : settle parent? output = pure output := by
  cases output with
  | fragment fragment => cases parent? <;> rfl
  | machine machine =>
      rw [h rfl]
      rfl

/-- Compiling one element goes through its own visit. -/
theorem goesThrough_compile {builtin : Builtin} {attributes : Attributes}
    {children : List (Child M)} {fragments : List Fragment}
    (yields : List.Forall₂ compiler.Yields children fragments) (parent? : Option String) :
    compiler.GoesThrough [⟨parent?, .node (.builtin builtin) attributes children⟩]
      (compiler.compile (.builtin builtin) attributes fragments >>= settle parent?) := by
  have hambiguities : compiler.ambiguities (.node (.builtin builtin) attributes children)
      = builtin.ambiguities fragments := by
    rw [ambiguities, fragments_eq_of_yields yields]
  have hcompile : (compiler.compile (.builtin builtin) attributes fragments).result
      = (compiler.compileBuiltin attributes fragments builtin).result := result_compile ..
  have hsaid : (compiler.compile (.builtin builtin) attributes fragments).dispatches
      = [Visit.notice ⟨parent?, .node (.builtin builtin) attributes children⟩] := by
    have hquiet : Quiet (compiler.compileBuiltin attributes fragments builtin) :=
      quiet_compileBuiltin attributes fragments builtin
    rw [compile, Compilation.dispatches_bind_of_ok rfl, hquiet, ← yields.length_eq]
    rfl
  have hfragments : List.Forall₂ compiler.Yields children (compiler.fragments children) := by
    rwa [fragments_eq_of_yields yields]
  by_cases hrejected : compiler.settings.duplicates = .reject ∧ builtin.ambiguities fragments ≠ []
  · have hresult := hcompile.trans
      (result_compileBuiltin_of_ambiguities hrejected.1 hrejected.2 attributes)
    refine .stops [] _ _ ⟨List.prefix_rfl, nofun, ?_⟩ hfragments
      (Compilation.result_bind_of_error hresult _)
      ((Compilation.dispatches_bind_of_error hresult _).trans hsaid)
    rw [fault?, hambiguities, if_pos hrejected]
  · have hclean : compiler.settings.duplicates = .reject → builtin.ambiguities fragments = [] := by
      intro hreject
      by_contra hfound
      exact hrejected ⟨hreject, hfound⟩
    obtain ⟨output, houtput, hmachine⟩ := exists_result_compileBuiltin hclean attributes
    have hresult := Compilation.result_bind_of_ok (hcompile.trans houtput) (settle parent?)
    have hdispatches := Compilation.dispatches_bind_of_ok (hcompile.trans houtput) (settle parent?)
    rw [hsaid] at hdispatches
    by_cases hnested : ∃ parent, parent? = some parent ∧ builtin = .machine
    · obtain ⟨parent, rfl, rfl⟩ := hnested
      cases output with
      | fragment fragment => exact absurd (hmachine.mpr rfl) (by simp [Output.machine?])
      | machine machine =>
          refine .stops [] _ (.nestedMachine parent) ⟨List.prefix_rfl, nofun, ?_⟩ hfragments
            hresult hdispatches
          rw [fault?, hambiguities, if_neg hrejected]
    · have hroot : output.machine?.isSome → parent? = none := by
        intro hsome
        by_contra hparent
        obtain ⟨parent, hparent⟩ := Option.ne_none_iff_exists'.mp hparent
        exact hnested ⟨parent, hparent, hmachine.mp hsome⟩
      rw [settle_eq_pure hroot] at hresult hdispatches
      refine .all ?_ output hresult hdispatches
      intro visit hvisit
      rw [List.mem_singleton.mp hvisit, fault?_eq_none_iff, hambiguities]
      refine ⟨hclean, fun hmachineTag => hroot (hmachine.mpr ?_)⟩
      exact Tag.builtin.inj hmachineTag

/-! ## 4. Whole trees -/

/-- Below another element no machine is left. -/
theorem result_settle_ne_machine {run : Compilation (Output M)} {parent : String} {machine : M} :
    (run >>= settle (some parent)).result ≠ .ok (.machine machine) := by
  intro h
  obtain ⟨output, -, hsettle⟩ := Compilation.result_bind_eq_ok_iff.mp h
  cases output with
  | fragment fragment => exact absurd hsettle nofun
  | machine machine => exact absurd hsettle nofun

/-- The children behind an element are compiled once its output is settled. -/
theorem evaluateChildren_element (parent : String) (element : Element M) (rest : List (Child M)) :
    compiler.evaluateChildren parent (.element element :: rest) =
      (compiler.evaluate element >>= settle (some parent)) >>= fun output =>
        match output with
        | .fragment fragment =>
            compiler.evaluateChildren parent rest >>= fun others => pure (fragment :: others)
        | .machine _ => throw (.nestedMachine parent) := by
  rw [evaluateChildren, bind_assoc]
  congr 1
  funext output
  cases output with
  | fragment fragment => rfl
  | machine machine => rfl

mutual
/-- A run over a tree goes through the visits of the tree. -/
theorem goesThrough_evaluate (parent? : Option String) : (element : Element M) →
    element.BuiltIn →
      compiler.GoesThrough (element.visits parent?) (compiler.evaluate element >>= settle parent?)
  | .node _ attributes children, ⟨⟨builtin, hbuiltin⟩, hchildren⟩ => by
      subst hbuiltin
      rw [Element.visits, evaluate, bind_assoc]
      refine (goesThrough_evaluateChildren _ children hchildren).bind fun fragments hfragments => ?_
      exact goesThrough_compile (result_evaluateChildren_eq_ok_iff.mp hfragments) parent?
/-- Child by child. -/
theorem goesThrough_evaluateChildren (parent : String) : (children : List (Child M)) →
    Child.AllBuiltIn children →
      compiler.GoesThrough (Child.visits parent children)
        (compiler.evaluateChildren parent children)
  | [], _ => .all nofun [] rfl rfl
  | .fragment fragment :: rest, h => by
      rw [Child.visits, evaluateChildren]
      exact (goesThrough_evaluateChildren parent rest h).map (fragment :: ·)
  | .element element :: rest, ⟨helement, hrest⟩ => by
      rw [Child.visits, evaluateChildren_element]
      refine (goesThrough_evaluate (some parent) element helement).bind fun output houtput => ?_
      cases output with
      | fragment fragment =>
          exact (goesThrough_evaluateChildren parent rest hrest).map (fragment :: ·)
      | machine machine => exact absurd houtput result_settle_ne_machine
end

/-- A run over a tree on its own goes through the visits of the tree. -/
theorem goesThrough_root {root : Element M} (builtIn : root.BuiltIn) :
    compiler.GoesThrough (root.visits none) (compiler.evaluate root) := by
  have hroot : compiler.GoesThrough (root.visits none) _ := goesThrough_evaluate none root builtIn
  have hsettle : (settle none : Output M → Compilation (Output M)) = pure :=
    funext fun _ => settle_eq_pure fun _ => rfl
  rwa [hsettle, bind_pure] at hroot

/-- An element with a built-in tag comes to a machine exactly if it has the tag of one. -/
theorem isSome_machine?_iff {root : Element M} (builtIn : root.BuiltIn) {output : Output M}
    (h : (compiler.evaluate root).result = .ok output) :
    output.machine?.isSome ↔ root.IsMachine := by
  obtain ⟨tag, attributes, children⟩ := root
  obtain ⟨⟨builtin, rfl⟩, -⟩ := builtIn
  obtain ⟨fragments, -, hcompile⟩ := result_evaluate_eq_ok_iff.mp h
  rw [result_compile] at hcompile
  have hclean : compiler.settings.duplicates = .reject → builtin.ambiguities fragments = [] := by
    intro hreject
    by_contra hfound
    have hrefused := result_compileBuiltin_of_ambiguities hreject hfound attributes
    exact absurd (hrefused.symm.trans hcompile) nofun
  obtain ⟨found, hfound, hmachine⟩ := exists_result_compileBuiltin hclean attributes
  obtain rfl : found = output := Except.ok.inj (hfound.symm.trans hcompile)
  rw [hmachine]
  exact ⟨fun hbuiltin => congrArg Tag.builtin hbuiltin, fun htag => Tag.builtin.inj htag⟩

/-- Nothing is wrong anywhere in a tree exactly when no machine stands below its root and, where
they are rejected, there are no ambiguities. -/
theorem forall_fault?_eq_none_iff {root : Element M} :
    (∀ visit ∈ root.visits none, compiler.fault? visit = none) ↔
      (∀ visit ∈ root.descendants, ¬visit.element.IsMachine) ∧
        (compiler.settings.duplicates = .reject →
          ∀ visit ∈ root.visits none, compiler.ambiguities visit.element = []) := by
  constructor
  · intro h
    refine ⟨fun visit hmem hmachine => ?_, fun hreject visit hmem => ?_⟩
    · have hvisit : visit ∈ root.visits none := by
        rw [Element.visits_eq]
        exact List.mem_append_left _ hmem
      exact Child.parent?_of_mem_visits _ hmem ((fault?_eq_none_iff.mp (h visit hvisit)).2 hmachine)
    · exact (fault?_eq_none_iff.mp (h visit hmem)).1 hreject
  · rintro ⟨hmachines, hambiguities⟩ visit hmem
    refine fault?_eq_none_iff.mpr ⟨fun hreject => hambiguities hreject visit hmem, ?_⟩
    intro hmachine
    rw [Element.visits_eq, List.mem_append, List.mem_singleton] at hmem
    rcases hmem with hbelow | rfl
    · exact absurd hmachine (hmachines visit hbelow)
    · rfl

/-- How the build of a tree ends: at the first visit where something is wrong, or behind all visits
with the output of the root, which is a machine if the root is one. -/
inductive BuildEnds (compiler : Compiler M) (root : Element M) : Prop
  | fault (before : List (Visit M)) (visit : Visit M) (error : CompileError)
      (first : compiler.FirstFault (root.visits none) before visit error)
      (yields : List.Forall₂ compiler.Yields visit.element.children
        (compiler.fragments visit.element.children))
      (result : (compiler.build root).result = .error error)
      (said : (compiler.build root).dispatches = (before ++ [visit]).map Visit.notice)
  | machine (clean : ∀ visit ∈ root.visits none, compiler.fault? visit = none)
      (isMachine : root.IsMachine) (machine : M)
      (result : (compiler.build root).result = .ok machine)
  | fragment (clean : ∀ visit ∈ root.visits none, compiler.fault? visit = none)
      (noMachine : ¬root.IsMachine)
      (result : (compiler.build root).result = .error (.expectedMachine root.tag.name))

theorem build_ends {root : Element M} (builtIn : root.BuiltIn) : compiler.BuildEnds root := by
  have hroot : compiler.GoesThrough (root.visits none) _ := goesThrough_root builtIn
  rcases hroot with
    ⟨clean, output, heval, -⟩ | ⟨before, visit, error, first, yields, heval, said⟩
  · have hmachine := isSome_machine?_iff builtIn heval
    have hbuild : (compiler.build root).result = _ := Compilation.result_bind_of_ok heval _
    cases output with
    | machine machine => exact .machine clean (hmachine.mp rfl) machine hbuild
    | fragment fragment =>
        refine .fragment clean (fun hroot => ?_) hbuild
        exact absurd (hmachine.mpr hroot) (by simp [Output.machine?])
  · exact .fault before visit error first yields (Compilation.result_bind_of_error heval _)
      ((Compilation.dispatches_bind_of_error heval _).trans said)

/-- A tree builds exactly when nothing is wrong at any visit and its root is a machine. -/
theorem exists_result_build_eq_ok_iff {root : Element M} (builtIn : root.BuiltIn) :
    (∃ machine, (compiler.build root).result = .ok machine) ↔
      root.IsMachine ∧ ∀ visit ∈ root.visits none, compiler.fault? visit = none := by
  have hends : compiler.BuildEnds root := build_ends builtIn
  rcases hends with
    ⟨before, visit, error, first, -, hresult, -⟩ | ⟨clean, hroot, machine, hresult⟩ |
    ⟨clean, hroot, hresult⟩
  · refine iff_of_false ?_ fun h => first.not_clean h.2
    rw [hresult]
    exact nofun
  · exact iff_of_true ⟨machine, hresult⟩ ⟨hroot, clean⟩
  · refine iff_of_false ?_ fun h => hroot h.1
    rw [hresult]
    exact nofun

/-- The error of a build is what is wrong at the first visit where anything is, or else that the
root is no machine. -/
theorem result_build_eq_error_iff {root : Element M} (builtIn : root.BuiltIn)
    {error : CompileError} :
    (compiler.build root).result = .error error ↔
      (∃ before visit, compiler.FirstFault (root.visits none) before visit error) ∨
        (∀ visit ∈ root.visits none, compiler.fault? visit = none) ∧ ¬root.IsMachine ∧
          error = .expectedMachine root.tag.name := by
  have hends : compiler.BuildEnds root := build_ends builtIn
  rcases hends with
    ⟨before, visit, found, first, -, hresult, -⟩ | ⟨clean, hroot, machine, hresult⟩ |
    ⟨clean, hroot, hresult⟩
  · rw [hresult]
    constructor
    · intro h
      exact .inl ⟨before, visit, Except.error.inj h ▸ first⟩
    · rintro (⟨before', visit', first'⟩ | ⟨h, -, -⟩)
      · obtain ⟨-, -, rfl⟩ := first.unique first'
        rfl
      · exact absurd h first.not_clean
  · rw [hresult]
    refine iff_of_false nofun ?_
    rintro (⟨before, visit, first⟩ | ⟨-, hother, -⟩)
    · exact first.not_clean clean
    · exact hother hroot
  · rw [hresult]
    constructor
    · intro h
      exact .inr ⟨clean, hroot, (Except.error.inj h).symm⟩
    · rintro (⟨before, visit, first⟩ | ⟨-, -, rfl⟩)
      · exact absurd clean first.not_clean
      · rfl

/-- Up to the first visit where something is wrong every element is compiled, and none behind it. -/
theorem FirstFault.build {root : Element M} (builtIn : root.BuiltIn) {before : List (Visit M)}
    {visit : Visit M} {error : CompileError}
    (first : compiler.FirstFault (root.visits none) before visit error) :
    (compiler.build root).dispatches = (before ++ [visit]).map Visit.notice ∧
      List.Forall₂ compiler.Yields visit.element.children
        (compiler.fragments visit.element.children) := by
  have hends : compiler.BuildEnds root := build_ends builtIn
  rcases hends with
    ⟨before', visit', found, first', yields, -, said⟩ | ⟨clean, -, -, -⟩ | ⟨clean, -, -⟩
  · obtain ⟨rfl, rfl, -⟩ := first.unique first'
    exact ⟨said, yields⟩
  · exact absurd clean first.not_clean
  · exact absurd clean first.not_clean

end Compiler

/-! ## 5. How a tree builds -/

/-- **When a build fails, and how.** A tree with built-in tags builds exactly when its root is a
machine, no other element is one, and either ambiguities are not rejected or there are none among
the compiled children of any state or machine. Otherwise the error is what is wrong at the first
visit where anything is, children before their parent and from left to right; up to there every
element is compiled and none behind it. Only where nothing is wrong at any visit is it the error
that the root is no machine. -/
theorem build_fails_at_firstFault (compiler : Compiler M) {root : Element M}
    (builtIn : root.BuiltIn) :
    ((∃ machine, (compiler.build root).result = .ok machine) ↔
        root.IsMachine ∧ (∀ visit ∈ root.descendants, ¬visit.element.IsMachine) ∧
          (compiler.settings.duplicates = .reject →
            ∀ visit ∈ root.visits none, compiler.ambiguities visit.element = [])) ∧
      (∀ error, (compiler.build root).result = .error error ↔
        (∃ before visit, compiler.FirstFault (root.visits none) before visit error) ∨
          (∀ visit ∈ root.visits none, compiler.fault? visit = none) ∧ ¬root.IsMachine ∧
            error = .expectedMachine root.tag.name) ∧
      ∀ before visit error, compiler.FirstFault (root.visits none) before visit error →
        (compiler.build root).dispatches = (before ++ [visit]).map Visit.notice ∧
          List.Forall₂ compiler.Yields visit.element.children
            (compiler.fragments visit.element.children) := by
  refine ⟨?_, fun error => Compiler.result_build_eq_error_iff builtIn, ?_⟩
  · rw [Compiler.exists_result_build_eq_ok_iff builtIn, Compiler.forall_fault?_eq_none_iff]
  · intro before visit error first
    exact first.build builtIn

/-- Below the first state a machine stands behind one state and in front of another. Further on more
is wrong: a transition has no event, and two states have one id. -/
def misplacedMachine : Element Blueprint :=
  (Element.machine "m" "a").childElements
    [(Element.state "a").childElements
        [.state "x", .machine "inner" "y", .ofTag (.builtin .state)],
      (Element.state "b").child (.ofTag (.builtin .transition)), .state "b"]

/-- The nested machine is the error, and of its siblings only the first is compiled. -/
theorem build_misplacedMachine :
    ((Compiler.blueprint.under .reject).build misplacedMachine).result
        = .error (.nestedMachine "state") ∧
      ((Compiler.blueprint.under .reject).build misplacedMachine).dispatches
        = [.compiling "state" 0, .compiling "machine" 0] := by
  have hplain : misplacedMachine.Plain := by
    simp [misplacedMachine]
  obtain ⟨-, herror, hfirst⟩ :=
    build_fails_at_firstFault (Compiler.blueprint.under .reject) hplain.builtIn
  have first : (Compiler.blueprint.under .reject).FirstFault (misplacedMachine.visits none)
      [⟨some "state", .state "x"⟩] ⟨some "state", .machine "inner" "y"⟩
      (.nestedMachine "state") := by
    refine ⟨⟨_, rfl⟩, fun earlier hmem => ?_, rfl⟩
    rw [List.mem_singleton.mp hmem]
    rfl
  exact ⟨(herror _).mpr (.inl ⟨_, _, first⟩), (hfirst _ _ _ first).1⟩

end Statechart
