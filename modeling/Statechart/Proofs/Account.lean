/-
`Proofs/Account.lean` -- what a compilation comes to before any policy has its say.

The policy decides one thing only: what becomes of the violations that the compiler finds among the
children of a state or a machine. The account of a compilation leaves this open. It has the result
that is there when nothing is rejected, and everything that is said on the way, where a violation
that the compiler found itself is marked as such and has no level yet. A component says what it says
under every policy, also when what it says is that some compiler of its own found a violation.

A run follows an account when it does with the account what its policy prescribes. Following is kept
by sequencing, so that each step of the compiler is looked at once.
-/
import Statechart.Compile.Compiler
import Statechart.Proofs.Runs

set_option autoImplicit false

namespace Statechart

/-! ## 1. Remarks -/

/-- One thing that is said during a compilation. -/
inductive Remark where
  /-- A notice that no policy has a say in. -/
  | plain (notice : Notice)
  /-- A violation that the compiler itself found among the children of the named element. -/
  | found (node : String) (violation : Violation)

/-- The notice that a remark is when violations are reported at `level`. -/
def Remark.notice (level : Level) : Remark → Notice
  | .plain notice => notice
  | .found node violation => .violation level node violation

/-- The level at which a policy reports violations, if it lets them pass. -/
def Policy.level? : Policy → Option Level
  | .permissive => some .debug
  | .warn => some .warn
  | .reject => none

/-- Plain notices are the same at every level. -/
theorem map_notice_plain (level : Level) (log : List Notice) :
    (log.map Remark.plain).map (Remark.notice level) = log := by
  rw [List.map_map]
  exact List.map_id log

/-! ## 2. Accounts -/

/-- What a compilation comes to where nothing is rejected, and what is said on the way. -/
structure Account (α : Type) where
  result : Except CompileError α
  remarks : List Remark

namespace Account

variable {α β : Type}

instance : Monad Account where
  pure value := { result := .ok value, remarks := [] }
  bind first next :=
    match first.result with
    | .ok value =>
        let after := next value
        { result := after.result, remarks := first.remarks ++ after.remarks }
    | .error error => { result := .error error, remarks := first.remarks }

/-- The account of a compilation that meets no policy. -/
def ofCompilation (run : Compilation α) : Account α :=
  { result := run.result, remarks := run.log.map .plain }

/-- The account of finding violations among the children of the named element. -/
def finding (node : String) (found : List Violation) : Account Unit :=
  { result := .ok (), remarks := found.map (.found node) }

/-- The account of a step that always succeeds. -/
def said (step : Logged α) : Account α := ofCompilation (ExceptT.lift step)

theorem bind_of_ok {first : Account α} {a : α} (h : first.result = .ok a)
    (next : α → Account β) :
    first >>= next =
      { result := (next a).result, remarks := first.remarks ++ (next a).remarks } := by
  show (match first.result with
    | .ok value => _
    | .error error => _ : Account β) = _
  rw [h]

theorem bind_of_error {first : Account α} {error : CompileError} (h : first.result = .error error)
    (next : α → Account β) :
    first >>= next = { result := .error error, remarks := first.remarks } := by
  show (match first.result with
    | .ok value => _
    | .error error => _ : Account β) = _
  rw [h]

/-! ## 3. Following an account -/

/-- The run has the result of the account, and reports what was found at `level`. -/
structure Reports (level : Level) (account : Account α) (run : Compilation α) : Prop where
  result : run.result = account.result
  log : run.log = account.remarks.map (Remark.notice level)

/-- The run ends at the first element among whose children something was found. If there is none, it
is the account as it stands. -/
inductive Enforces (account : Account α) (run : Compilation α) : Prop
  | clean (log : List Notice) (remarks : account.remarks = log.map .plain)
      (result : run.result = account.result) (said : run.log = log)
  | ambiguous (before : List Notice) (node : String) (found : List Violation) (after : List Remark)
      (some : found ≠ [])
      (remarks : account.remarks = before.map .plain ++ found.map (.found node) ++ after)
      (result : run.result = .error (.ambiguousStructure found)) (said : run.log = before)

/-- The run does with the account what the policy prescribes. -/
def Follows (account : Account α) (policy : Policy) (run : Compilation α) : Prop :=
  match policy.level? with
  | some level => Reports level account run
  | none => Enforces account run

theorem Reports.bind {level : Level} {first : Account α} {next : α → Account β}
    {run : Compilation α} {rest : α → Compilation β} (hfirst : Reports level first run)
    (hnext : ∀ a, Reports level (next a) (rest a)) :
    Reports level (first >>= next) (run >>= rest) := by
  cases h : first.result with
  | ok a =>
      have hrun : run.result = .ok a := hfirst.result.trans h
      rw [bind_of_ok h]
      constructor
      · rw [Compilation.result_bind_of_ok hrun]
        exact (hnext a).result
      · rw [Compilation.log_bind_of_ok hrun, hfirst.log, (hnext a).log, List.map_append]
  | error error =>
      have hrun : run.result = .error error := hfirst.result.trans h
      rw [bind_of_error h]
      exact ⟨Compilation.result_bind_of_error hrun rest,
        (Compilation.log_bind_of_error hrun rest).trans hfirst.log⟩

theorem Enforces.bind {first : Account α} {next : α → Account β} {run : Compilation α}
    {rest : α → Compilation β} (hfirst : Enforces first run)
    (hnext : ∀ a, Enforces (next a) (rest a)) : Enforces (first >>= next) (run >>= rest) := by
  rcases hfirst with ⟨log, hremarks, hresult, hlog⟩ | ⟨before, node, found, after, hfound, hremarks,
    hresult, hlog⟩
  · cases h : first.result with
    | error error =>
        have hrun : run.result = .error error := hresult.trans h
        rw [bind_of_error h]
        exact .clean log hremarks (Compilation.result_bind_of_error hrun rest)
          ((Compilation.log_bind_of_error hrun rest).trans hlog)
    | ok a =>
        have hrun : run.result = .ok a := hresult.trans h
        rw [bind_of_ok h]
        -- the first step found nothing, so it is the second one that decides
        rcases hnext a with ⟨log', hremarks', hresult', hlog'⟩ | ⟨before, node, found, after,
          hfound, hremarks', hresult', hlog'⟩
        · refine .clean (log ++ log') ?_ ?_ ?_
          · rw [hremarks, hremarks', List.map_append]
          · rw [Compilation.result_bind_of_ok hrun, hresult']
          · rw [Compilation.log_bind_of_ok hrun, hlog, hlog']
        · refine .ambiguous (log ++ before) node found after hfound ?_ ?_ ?_
          · rw [hremarks, hremarks', List.map_append]
            simp only [List.append_assoc]
          · rw [Compilation.result_bind_of_ok hrun, hresult']
          · rw [Compilation.log_bind_of_ok hrun, hlog, hlog']
  · -- the first step is refused, and the second is never reached
    have hrun := Compilation.result_bind_of_error hresult rest
    have hrunLog := (Compilation.log_bind_of_error hresult rest).trans hlog
    cases h : first.result with
    | ok a =>
        rw [bind_of_ok h]
        refine .ambiguous before node found (after ++ (next a).remarks) hfound ?_ hrun hrunLog
        rw [hremarks, List.append_assoc]
    | error error =>
        rw [bind_of_error h]
        exact .ambiguous before node found after hfound hremarks hrun hrunLog

variable {policy : Policy}

/-- A sequence of runs follows the sequence of their accounts. -/
theorem Follows.bind {first : Account α} {next : α → Account β} {run : Compilation α}
    {rest : α → Compilation β} (hfirst : Follows first policy run)
    (hnext : ∀ a, Follows (next a) policy (rest a)) :
    Follows (first >>= next) policy (run >>= rest) := by
  -- the two policies that let violations pass report, at their levels, and the third enforces
  cases policy with
  | permissive => exact Reports.bind hfirst hnext
  | warn => exact Reports.bind hfirst hnext
  | reject => exact Enforces.bind hfirst hnext

/-- What meets no policy follows its own account under each. -/
theorem follows_ofCompilation (policy : Policy) (run : Compilation α) :
    Follows (ofCompilation run) policy run := by
  cases policy with
  | permissive => exact ⟨rfl, (map_notice_plain _ _).symm⟩
  | warn => exact ⟨rfl, (map_notice_plain _ _).symm⟩
  | reject => exact .clean run.log rfl rfl rfl

theorem follows_pure (policy : Policy) (a : α) :
    Follows (pure a : Account α) policy (pure a) :=
  follows_ofCompilation policy (pure a)

/-- Enforcing checks follows the account of what they find. -/
theorem follows_enforce (policy : Policy) (checks : List Check) (node : String)
    (children : List Fragment) :
    Follows (finding node (Siblings.violations checks children)) policy
      (Siblings.enforce checks policy node children) := by
  have hreport : ∀ level, Reports level (finding node (Siblings.violations checks children))
      (Siblings.report level node (Siblings.violations checks children)) := by
    intro level
    refine ⟨rfl, ?_⟩
    show (Siblings.report level node _).log = ((Siblings.violations checks children).map _).map _
    rw [Siblings.report, Compilation.log_lift, List.map_map]
    rfl
  -- rejecting alone asks whether anything was found
  cases policy with
  | permissive => exact hreport .debug
  | warn => exact hreport .warn
  | reject =>
      by_cases h : Siblings.violations checks children = []
      · rw [Siblings.enforce, if_pos h, h]
        exact .clean [] rfl rfl rfl
      · rw [Siblings.enforce, if_neg h]
        refine .ambiguous [] node _ [] h ?_ rfl rfl
        rw [List.map_nil, List.nil_append, List.append_nil]
        rfl

end Account

/-! ## 4. The accounts of the compiler -/

namespace Compile

/-- The account of a state: what is found among its children, and what their folds lose. -/
def stateAccount (attributes : Attributes) (children : List Fragment) : Account StateNode := do
  Account.finding ((stateId? attributes).getD "state")
    (Siblings.violations Siblings.stateChecks children)
  let on ← Account.said (Siblings.mergeTransitions children)
  let states ← Account.said (Siblings.mergeStates children)
  return assembleState attributes on (Siblings.firstInvoke? children) states

theorem follows_state (policy : Policy) (attributes : Attributes) (children : List Fragment) :
    (stateAccount attributes children).Follows policy (state policy attributes children) := by
  refine Account.Follows.bind (Account.follows_enforce ..) fun _ => ?_
  exact Account.Follows.bind (Account.follows_ofCompilation ..) fun on =>
    Account.Follows.bind (Account.follows_ofCompilation ..) fun states =>
      Account.follows_pure ..

/-- The account of a machine. The options record is split off before anything is checked, and
everything else that is said comes after what is found. -/
def machineAccount (run : Nat) (patcher : Patcher) (attributes : Attributes)
    (children : List Fragment) : Account Blueprint := do
  let split ← Account.said (splitOptions children)
  let options := split.options.getD {}
  let name := machineName attributes
  Account.finding name (Siblings.violations Siblings.machineChecks split.rest)
  Account.said (Logged.notices (configNotices name attributes))
  let folded ← Account.said (Siblings.mergeStates split.rest)
  let config := assembleConfig attributes options folded
  Account.said (Logged.notices (attributeNotices name attributes))
  let derived ← Account.said (deriveActions run patcher options.mutations)
  let actions ← Account.said (overrideActions name options.actions derived)
  Account.ofCompilation
    (Compilation.notice (.assembled name (config.states.getD []).length actions.length))
  return { config, options := assembleOptions options actions }

theorem follows_machine (run : Nat) (patcher : Patcher) (policy : Policy) (attributes : Attributes)
    (children : List Fragment) :
    (machineAccount run patcher attributes children).Follows policy
      (machine run patcher policy attributes children) := by
  refine Account.Follows.bind (Account.follows_ofCompilation ..) fun split => ?_
  refine Account.Follows.bind (Account.follows_enforce ..) fun _ => ?_
  -- behind the check no step meets the policy
  refine Account.Follows.bind (Account.follows_ofCompilation ..) fun _ => ?_
  refine Account.Follows.bind (Account.follows_ofCompilation ..) fun folded => ?_
  refine Account.Follows.bind (Account.follows_ofCompilation ..) fun _ => ?_
  refine Account.Follows.bind (Account.follows_ofCompilation ..) fun derived => ?_
  refine Account.Follows.bind (Account.follows_ofCompilation ..) fun actions => ?_
  exact Account.Follows.bind (Account.follows_ofCompilation ..) fun _ => Account.follows_pure ..

end Compile

namespace Compiler

variable {M : Type}

/-- The account of an element with a built-in tag. Only states and machines look for violations. -/
def builtinAccount (compiler : Compiler M) (attributes : Attributes) (children : List Fragment)
    (builtin : Builtin) : Account (Output M) :=
  match builtin with
  | .machine => do
      let compiled ← Compile.machineAccount compiler.run compiler.patcher attributes children
      return .machine (compiler.construct compiled.config compiled.options)
  | .state => return .fragment (.state (← Compile.stateAccount attributes children))
  | other => Account.ofCompilation (compiler.compileBuiltin attributes children other)

/-- The account of one element whose children are compiled. A component meets no policy. -/
def compileAccount (compiler : Compiler M) (tag : Tag M) (attributes : Attributes)
    (children : List Fragment) : Account (Output M) := do
  Account.ofCompilation (Compilation.notice (.compiling tag.name children.length))
  match tag with
  | .builtin builtin => compiler.builtinAccount attributes children builtin
  | .custom component => Account.ofCompilation (component { attributes, children })

mutual
/-- The account of a tree. -/
def account (compiler : Compiler M) : Element M → Account (Output M)
  | .node tag attributes children => do
      let fragments ← compiler.childrenAccount tag.name children
      compiler.compileAccount tag attributes fragments
/-- The account of the children of an element. -/
def childrenAccount (compiler : Compiler M) (parent : String) :
    List (Child M) → Account (List Fragment)
  | [] => return []
  | .fragment fragment :: rest => do
      return fragment :: (← compiler.childrenAccount parent rest)
  | .element element :: rest => do
      match ← compiler.account element with
      | .fragment fragment => return fragment :: (← compiler.childrenAccount parent rest)
      | .machine _ => Account.ofCompilation (throw (.nestedMachine parent))
end

/-- The account of a tree that has to come to a machine. -/
def buildAccount (compiler : Compiler M) (root : Element M) : Account M := do
  match ← compiler.account root with
  | .machine machine => return machine
  | .fragment _ => Account.ofCompilation (throw (.expectedMachine root.tag.name))

/-- The compiler under a policy. -/
def under (compiler : Compiler M) (policy : Policy) : Compiler M :=
  { compiler with settings := { duplicates := policy } }

variable (compiler : Compiler M) (policy : Policy)

theorem follows_compileBuiltin (attributes : Attributes) (children : List Fragment)
    (builtin : Builtin) :
    (compiler.builtinAccount attributes children builtin).Follows policy
      ((compiler.under policy).compileBuiltin attributes children builtin) := by
  cases builtin with
  | machine =>
      exact Account.Follows.bind (Compile.follows_machine ..) fun _ => Account.follows_pure ..
  | state => exact Account.Follows.bind (Compile.follows_state ..) fun _ => Account.follows_pure ..
  | transition | invoke | onDone | onError => exact Account.follows_ofCompilation ..

theorem follows_compile (tag : Tag M) (attributes : Attributes) (children : List Fragment) :
    (compiler.compileAccount tag attributes children).Follows policy
      ((compiler.under policy).compile tag attributes children) := by
  refine Account.Follows.bind (Account.follows_ofCompilation ..) fun _ => ?_
  cases tag with
  | builtin builtin => exact compiler.follows_compileBuiltin policy attributes children builtin
  | custom component => exact Account.follows_ofCompilation ..

mutual
/-- A run over a tree follows the account of the tree. -/
theorem follows_evaluate : (element : Element M) →
    (compiler.account element).Follows policy ((compiler.under policy).evaluate element)
  | .node tag attributes children =>
      Account.Follows.bind (follows_evaluateChildren tag.name children) fun fragments =>
        compiler.follows_compile policy tag attributes fragments
/-- Child by child. -/
theorem follows_evaluateChildren (parent : String) : (children : List (Child M)) →
    (compiler.childrenAccount parent children).Follows policy
      ((compiler.under policy).evaluateChildren parent children)
  | [] => Account.follows_pure ..
  | .fragment _ :: rest =>
      Account.Follows.bind (follows_evaluateChildren parent rest) fun _ => Account.follows_pure ..
  | .element element :: rest =>
      Account.Follows.bind (follows_evaluate element) fun output => by
        cases output with
        | fragment fragment =>
            exact Account.Follows.bind (follows_evaluateChildren parent rest) fun _ =>
              Account.follows_pure ..
        -- a nested machine ends the run whatever the policy
        | machine machine => exact Account.follows_ofCompilation ..
end

/-- Building a tree follows the account of building it. -/
theorem follows_build (root : Element M) :
    (compiler.buildAccount root).Follows policy ((compiler.under policy).build root) := by
  refine Account.Follows.bind (compiler.follows_evaluate policy root) fun output => ?_
  cases output with
  | machine machine => exact Account.follows_pure ..
  | fragment fragment => exact Account.follows_ofCompilation ..

end Compiler

end Statechart
