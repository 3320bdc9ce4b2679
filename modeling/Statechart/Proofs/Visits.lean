/-
`Proofs/Visits.lean` -- the order in which a tree is compiled, and what may go wrong on the way.

An element is compiled when all of its children are, and its children are compiled from left to
right. So a run over a tree visits the elements children first. At each visit there are two things
that may be wrong: what the children came to may be ambiguous, which only the rejecting policy
minds, and the element may be a machine that is not the root, which its parent minds under every
policy.
-/
import Statechart.Proofs.Account
import Statechart.Proofs.Markup

set_option autoImplicit false

namespace Statechart

variable {M : Type}

/-! ## 1. Visits -/

/-- An element in its place: below an element whose tag has the given name, or at the root. -/
structure Visit (M : Type) where
  parent? : Option String
  element : Element M

/-- The notice that a visit begins with. -/
def Visit.notice (visit : Visit M) : Notice :=
  .compiling visit.element.tag.name visit.element.children.length

mutual
/-- The elements of a tree that stands in the given place: those below it and then itself. -/
def Element.visits (parent? : Option String) : Element M → List (Visit M)
  | .node tag attributes children =>
      Child.visits tag.name children ++ [⟨parent?, .node tag attributes children⟩]
/-- The elements among the children and below them, from left to right. -/
def Child.visits (parent : String) : List (Child M) → List (Visit M)
  | [] => []
  | .fragment _ :: rest => Child.visits parent rest
  | .element element :: rest => element.visits (some parent) ++ Child.visits parent rest
end

namespace Element

/-- The elements below the root of a tree. -/
def descendants (root : Element M) : List (Visit M) := Child.visits root.tag.name root.children

/-- Whether an element has the tag of a machine. -/
def IsMachine (element : Element M) : Prop := element.tag = .builtin .machine

theorem visits_eq (parent? : Option String) (root : Element M) :
    root.visits parent? = root.descendants ++ [⟨parent?, root⟩] := by
  obtain ⟨tag, attributes, children⟩ := root
  rw [visits, descendants]
  rfl

end Element

mutual
/-- Every tag is built in. What is compiled already may be anything. -/
def Element.BuiltIn : Element M → Prop
  | .node tag _ children => (∃ builtin, tag = .builtin builtin) ∧ Child.AllBuiltIn children
/-- `Element.BuiltIn` of each child element. -/
def Child.AllBuiltIn : List (Child M) → Prop
  | [] => True
  | .element element :: rest => element.BuiltIn ∧ Child.AllBuiltIn rest
  | .fragment _ :: rest => Child.AllBuiltIn rest
end

mutual
/-- Plain markup has built-in tags only. -/
theorem Element.Plain.builtIn : {element : Element M} → element.Plain → element.BuiltIn
  | .node _ _ _, ⟨htag, hchildren⟩ => ⟨htag, Child.AllPlain.allBuiltIn hchildren⟩
/-- Child by child. -/
theorem Child.AllPlain.allBuiltIn :
    {children : List (Child M)} → Child.AllPlain children → Child.AllBuiltIn children
  | [], _ => trivial
  | .element _ :: _, ⟨helement, hrest⟩ => ⟨helement.builtIn, hrest.allBuiltIn⟩
  | .fragment _ :: _, ⟨_, hrest⟩ => hrest.allBuiltIn
end

mutual
/-- Whatever is below a root has a parent. -/
theorem Element.parent?_of_mem_visits {parent? : Option String} {visit : Visit M} :
    (root : Element M) → visit ∈ root.visits parent? → visit.parent? = none → parent? = none
  | .node tag _ children, h, hnone => by
      rw [Element.visits, List.mem_append, List.mem_singleton] at h
      rcases h with hbelow | rfl
      · exact absurd hnone (Child.parent?_of_mem_visits children hbelow)
      · exact hnone
/-- Child by child. -/
theorem Child.parent?_of_mem_visits {parent : String} {visit : Visit M} :
    (children : List (Child M)) → visit ∈ Child.visits parent children → visit.parent? ≠ none
  | [], h => absurd h List.not_mem_nil
  | .fragment _ :: rest, h => Child.parent?_of_mem_visits rest h
  | .element element :: rest, h => by
      rw [Child.visits, List.mem_append] at h
      rcases h with hfirst | hrest
      · intro hnone
        exact absurd (Element.parent?_of_mem_visits element hfirst hnone) nofun
      · exact Child.parent?_of_mem_visits rest hrest
end

/-! ## 2. What children come to -/

/-- The ambiguities among compiled children, as far as the parent looks for any. A machine looks for
them among the children that are no options records. -/
def Builtin.ambiguities (children : List Fragment) : Builtin → List Violation
  | .machine => Siblings.violations Siblings.machineChecks (SplitChildren.withoutOptions children)
  | .state => Siblings.violations Siblings.stateChecks children
  | .transition | .invoke | .onDone | .onError => []

namespace Compiler

variable (compiler : Compiler M)

/-- The fragment that a child comes to where nothing is rejected, if it comes to one. -/
def fragment? : Child M → Option Fragment
  | .fragment found => some found
  | .element element =>
      match ((compiler.under .permissive).evaluate element).result with
      | .ok output => output.fragment?
      | .error _ => none

/-- The fragments that children come to where nothing is rejected. -/
def fragments (children : List (Child M)) : List Fragment :=
  children.filterMap compiler.fragment?

/-- The ambiguities among what the children of an element come to. -/
def ambiguities : Element M → List Violation
  | .node (.builtin builtin) _ children => builtin.ambiguities (compiler.fragments children)
  | .node (.custom _) _ _ => []

variable {compiler}

/-- What evaluates under some policy evaluates to the same where nothing is rejected. -/
theorem result_permissive_of_ok {element : Element M} {output : Output M}
    (h : (compiler.evaluate element).result = .ok output) :
    ((compiler.under .permissive).evaluate element).result = .ok output := by
  have hfollows := compiler.follows_evaluate compiler.settings.duplicates element
  have hpermissive : Account.Reports .debug (compiler.account element)
      ((compiler.under .permissive).evaluate element) :=
    compiler.follows_evaluate .permissive element
  -- the account has the result of every run that is not refused
  have haccount : (compiler.account element).result = .ok output := by
    have hrun : ((compiler.under compiler.settings.duplicates).evaluate element).result
        = .ok output := h
    generalize compiler.settings.duplicates = policy at hfollows hrun
    cases policy with
    | permissive => exact hfollows.result ▸ hrun
    | warn => exact hfollows.result ▸ hrun
    | reject =>
        rcases hfollows with ⟨_, _, hresult, _⟩ | ⟨_, _, _, _, _, _, hresult, _⟩
        · exact hresult ▸ hrun
        · exact absurd (hresult.symm.trans hrun) nofun
  rw [hpermissive.result, haccount]

/-- Children that yield fragments come to just these. -/
theorem fragments_eq_of_yields {children : List (Child M)} {fragments : List Fragment}
    (h : List.Forall₂ compiler.Yields children fragments) :
    compiler.fragments children = fragments := by
  induction h with
  | nil => rfl
  | @cons child fragment rest others hfirst _ ih =>
      have hchild : compiler.fragment? child = some fragment := by
        cases child with
        | fragment found => exact congrArg some hfirst
        | element element =>
            rw [fragment?, result_permissive_of_ok hfirst]
            rfl
      rw [Compiler.fragments, List.filterMap_cons_some hchild]
      exact congrArg (fragment :: ·) ih

/-! ## 3. Faults -/

variable (compiler)

/-- What is wrong at a visit, if anything is: that the children are ambiguous, if ambiguities are
rejected; and otherwise that a machine stands below another element. -/
def fault? (visit : Visit M) : Option CompileError :=
  if compiler.settings.duplicates = .reject ∧ compiler.ambiguities visit.element ≠ [] then
    some (.ambiguousStructure (compiler.ambiguities visit.element))
  else
    match visit.parent?, visit.element with
    | some parent, .node (.builtin .machine) _ _ => some (.nestedMachine parent)
    | _, _ => none

/-- Behind `before`, which is without fault, `visit` is the first one with a fault, and `error` is
what is wrong there. -/
structure FirstFault (visits before : List (Visit M)) (visit : Visit M) (error : CompileError) :
    Prop where
  leads : before ++ [visit] <+: visits
  clean : ∀ earlier ∈ before, compiler.fault? earlier = none
  fault : compiler.fault? visit = some error

variable {compiler}

/-- Nothing is wrong at a visit exactly when ambiguities are not minded or not there, and a machine
is the root. -/
theorem fault?_eq_none_iff {visit : Visit M} :
    compiler.fault? visit = none ↔
      (compiler.settings.duplicates = .reject → compiler.ambiguities visit.element = []) ∧
        (visit.element.IsMachine → visit.parent? = none) := by
  obtain ⟨parent?, ⟨tag, attributes, children⟩⟩ := visit
  rw [fault?]
  by_cases hambiguous : compiler.settings.duplicates = .reject ∧
      compiler.ambiguities (.node tag attributes children) ≠ []
  · rw [if_pos hambiguous]
    exact ⟨nofun, fun h => absurd (h.1 hambiguous.1) hambiguous.2⟩
  · rw [if_neg hambiguous]
    have hclean : compiler.settings.duplicates = .reject →
        compiler.ambiguities (.node tag attributes children) = [] := by
      intro hreject
      by_contra hfound
      exact hambiguous ⟨hreject, hfound⟩
    constructor
    · intro hnone
      refine ⟨hclean, fun hmachine => ?_⟩
      obtain rfl : tag = .builtin .machine := hmachine
      cases parent? with
      | none => rfl
      | some parent => exact absurd hnone nofun
    · rintro ⟨-, hroot⟩
      cases tag with
      | custom component => cases parent? <;> rfl
      | builtin builtin =>
          cases builtin with
          | machine =>
              have hparent : parent? = none := hroot rfl
              rw [hparent]
          | state | transition | invoke | onDone | onError => cases parent? <;> rfl

theorem FirstFault.mem {visits before : List (Visit M)} {visit : Visit M} {error : CompileError}
    (h : compiler.FirstFault visits before visit error) : visit ∈ visits :=
  h.leads.subset (List.mem_append_right _ List.mem_cons_self)

/-- Where nothing is wrong there is no first fault. -/
theorem FirstFault.not_clean {visits before : List (Visit M)} {visit : Visit M}
    {error : CompileError} (h : compiler.FirstFault visits before visit error) :
    ¬∀ visit ∈ visits, compiler.fault? visit = none := by
  intro clean
  have hnone := clean visit h.mem
  rw [h.fault] at hnone
  exact absurd hnone nofun

/-- A first fault stays the first one, whatever is visited behind it. -/
theorem FirstFault.append {visits before : List (Visit M)} {visit : Visit M} {error : CompileError}
    (h : compiler.FirstFault visits before visit error) (more : List (Visit M)) :
    compiler.FirstFault (visits ++ more) before visit error :=
  ⟨h.leads.trans (List.prefix_append visits more), h.clean, h.fault⟩

/-- A first fault stays the first one, if nothing is wrong at what is visited in front of it. -/
theorem FirstFault.append_left {visits before : List (Visit M)} {visit : Visit M}
    {error : CompileError} (h : compiler.FirstFault visits before visit error)
    {front : List (Visit M)} (clean : ∀ earlier ∈ front, compiler.fault? earlier = none) :
    compiler.FirstFault (front ++ visits) (front ++ before) visit error := by
  refine ⟨?_, ?_, h.fault⟩
  · rw [List.append_assoc]
    exact (List.prefix_append_right_inj front).mpr h.leads
  · intro earlier hmem
    rcases List.mem_append.mp hmem with hfront | hbefore
    · exact clean earlier hfront
    · exact h.clean earlier hbefore

/-- There is one first fault at most. -/
theorem FirstFault.unique {visits before before' : List (Visit M)} {visit visit' : Visit M}
    {error error' : CompileError} (h : compiler.FirstFault visits before visit error)
    (h' : compiler.FirstFault visits before' visit' error') :
    before = before' ∧ visit = visit' ∧ error = error' := by
  -- of two prefixes one is a prefix of the other, and the shorter one ends in a fault
  have hshort : ∀ {before before' : List (Visit M)} {visit visit' : Visit M}
      {error error' : CompileError}, compiler.FirstFault visits before visit error →
      compiler.FirstFault visits before' visit' error' → ¬before.length < before'.length := by
    intro before before' visit visit' error error' h h' hlt
    have hprefix : before ++ [visit] <+: before' := by
      refine List.prefix_of_prefix_length_le h.leads
        ((List.prefix_append before' [visit']).trans h'.leads) ?_
      rw [List.length_append, List.length_singleton]
      omega
    have hmem : visit ∈ before' := hprefix.subset (List.mem_append_right _ List.mem_cons_self)
    exact absurd (h.fault.symm.trans (h'.clean visit hmem)) nofun
  have hlength : before.length = before'.length := by
    have := hshort h h'
    have := hshort h' h
    omega
  have heq : before ++ [visit] = before' ++ [visit'] :=
    (List.prefix_of_prefix_length_le h.leads h'.leads (by simp [hlength])).eq_of_length
      (by simp [hlength])
  obtain ⟨hbefore, hvisit⟩ := List.append_inj heq hlength
  obtain rfl : visit = visit' := (List.cons.inj hvisit).1
  exact ⟨hbefore, rfl, Option.some.inj (h.fault.symm.trans h'.fault)⟩

end Compiler

end Statechart
