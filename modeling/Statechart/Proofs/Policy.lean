/-
`Proofs/Policy.lean` -- the policies side by side, over whole trees.

One tree, one constructor and one patcher are compiled three times, in three runs. Permitting and
warning come to the same and say the same, but for the level of what the compiler itself found.
Rejecting is permitting until the first element among whose children something is found, and ends
there; where nothing is found, it is permitting.
-/
import Statechart.Proofs.Account
import Statechart.Proofs.Renewal

set_option autoImplicit false

namespace Statechart

open Compilation (EndAlike Alike)

variable {M α : Type}

/-- What three runs over one tree have to do with each other. `remarks` is everything that is said
while nothing is rejected, and `rel` what it is for two values to be the same in different runs. -/
structure PoliciesAgree (rel : α → α → Prop) (remarks : List Remark)
    (permissive warn reject : Compilation α) : Prop where
  /-- A warning changes nothing in the result. -/
  result : EndAlike rel permissive.result warn.result
  permissive_log : permissive.log = remarks.map (Remark.notice .debug)
  warn_log : warn.log = remarks.map (Remark.notice .warn)
  /-- Either nothing was found, and rejecting is permitting; or the first findings are the error,
  and nothing is said from there on. -/
  reject :
    ((∀ node violation, Remark.found node violation ∉ remarks) ∧
        EndAlike rel permissive.result reject.result ∧ reject.log = permissive.log) ∨
      ∃ before node found after, found ≠ [] ∧
        remarks = before.map Remark.plain ++ found.map (Remark.found node) ++ after ∧
        reject.result = .error (.ambiguousStructure found) ∧
        reject.log = before ∧ reject.log <+: permissive.log

/-- Runs that follow one account under their policies agree, also when the second and the third of
them are made again. -/
theorem Account.policiesAgree {rel : α → α → Prop} (account : Account α)
    (run : Policy → Compilation α) (follows : ∀ policy, account.Follows policy (run policy))
    {warn reject : Compilation α} (warnAgain : Alike rel (run .warn) warn)
    (rejectAgain : Alike rel (run .reject) reject) :
    PoliciesAgree rel account.remarks (run .permissive) warn reject := by
  have hpermissive : Reports .debug account (run .permissive) := follows .permissive
  have hwarn : Reports .warn account (run .warn) := follows .warn
  have hreject : Enforces account (run .reject) := follows .reject
  refine ⟨?_, hpermissive.log, warnAgain.log ▸ hwarn.log, ?_⟩
  · -- both report, so both have the result of the account
    rw [hpermissive.result, ← hwarn.result]
    exact warnAgain.result
  · rcases hreject with ⟨log, hremarks, hresult, hlog⟩ | ⟨before, node, found, after, hfound,
      hremarks, hresult, hlog⟩
    · left
      refine ⟨?_, ?_, ?_⟩
      · -- nothing but plain remarks was made
        intro node violation hmem
        rw [hremarks] at hmem
        obtain ⟨_, _, h⟩ := List.mem_map.mp hmem
        exact absurd h (by simp)
      · rw [hpermissive.result, ← hresult]
        exact rejectAgain.result
      · rw [← rejectAgain.log, hlog, hpermissive.log, hremarks, map_notice_plain]
    · right
      have hend : reject.result = .error (.ambiguousStructure found) := by
        have hagain := rejectAgain.result
        rw [hresult] at hagain
        generalize reject.result = result at hagain ⊢
        cases hagain
        rfl
      have hbefore : reject.log = before := rejectAgain.log.symm.trans hlog
      refine ⟨before, node, found, after, hfound, hremarks, hend, hbefore, ?_⟩
      -- what is said before the findings is plain, and so the same when they are let pass
      rw [hbefore, hpermissive.log, hremarks, List.append_assoc, List.map_append,
        map_notice_plain]
      exact List.prefix_append ..

/-- **No policy interferes.** Over every tree, whatever the constructor, the patcher and the
components, evaluating and building come to the same and say the same under every policy that lets
violations pass, but for the level of what the compiler itself found. Rejecting either does the very
same or ends in the first findings, having said what the others say up to there. The three runs need
not be one run: what they derive for mutators they derive each for itself. -/
theorem policies_agree (compiler : Compiler M) (root : Element M) (warnRun rejectRun : Nat) :
    PoliciesAgree (OutputAgain compiler.construct) (compiler.account root).remarks
        ((compiler.under .permissive).evaluate root)
        (((compiler.under .warn).inRun warnRun).evaluate root)
        (((compiler.under .reject).inRun rejectRun).evaluate root) ∧
      PoliciesAgree (MachineAgain compiler.construct) (compiler.buildAccount root).remarks
        ((compiler.under .permissive).build root)
        (((compiler.under .warn).inRun warnRun).build root)
        (((compiler.under .reject).inRun rejectRun).build root) := by
  constructor
  · exact (compiler.account root).policiesAgree
      (fun policy => (compiler.under policy).evaluate root)
      (fun policy => compiler.follows_evaluate policy root)
      ((compiler.under .warn).evaluate_again warnRun root)
      ((compiler.under .reject).evaluate_again rejectRun root)
  · exact (compiler.buildAccount root).policiesAgree
      (fun policy => (compiler.under policy).build root)
      (fun policy => compiler.follows_build policy root)
      ((compiler.under .warn).build_again warnRun root)
      ((compiler.under .reject).build_again rejectRun root)

end Statechart
