import Prepass.Proofs.Outcome
import Prepass.Session.Process

/-!
# Runs

Preprocessing goes through the tokens of a source step by step (`Run`). When it gives tokens, it has come to the end of the source
(`run_of_ok`); when it stops at a fault, it has come to a step that does (`run_of_error`). What holds of all runs is shown by induction
on the steps.
-/

namespace Prepass

open SessionM

/-- Preprocessing comes from some tokens and a session to the tokens `after` and the session `s'`, step by step. -/
inductive Run (files : FileAccess) (after : List Token) (s' : Logged Session) : List Token → Logged Session → Prop
  | done : Run files after s' after s'
  | keep {t : Token} {rest : List Token} {s s₁ : Logged Session} (hs : process files (t :: rest) s = .ok .keep s₁)
    (h : Run files after s' rest s₁) : Run files after s' (t :: rest) s
  | replace {t : Token} {rest : List Token} {beyond : Nat} {skipped injected : List Token} {s s₁ : Logged Session}
    (hs : process files (t :: rest) s = .ok (.replace beyond skipped injected) s₁) (h : Run files after s' (rest.drop beyond) s₁) :
    Run files after s' (t :: rest) s

/-- How a run ends: at the end of the source, or at a step that stops at a fault. -/
def RunsTo (files : FileAccess) (tokens : List Token) (s : Logged Session) : EStateM.Result Fault (Logged Session) (List Token) → Prop
  | .ok _ s' => Run files [] s' tokens s
  | .error e s' => ∃ t rest s₁, Run files (t :: rest) s₁ tokens s ∧ process files (t :: rest) s₁ = .error e s'

section

variable {files : FileAccess} {t : Token} {rest tokens out : List Token} {s s₁ s' : Logged Session}
  {r : EStateM.Result Fault (Logged Session) (List Token)}

/-- A step that keeps its token goes in front of any run from the next one. -/
theorem RunsTo.keep (hs : process files (t :: rest) s = .ok .keep s₁) (h : RunsTo files rest s₁ r) : RunsTo files (t :: rest) s r := by
  cases r with
  | ok out s' => exact Run.keep hs h
  | error e s' =>
    obtain ⟨u, more, s₂, hrun, herror⟩ := h
    exact ⟨u, more, s₂, .keep hs hrun, herror⟩

/-- A step that replaces tokens goes in front of any run from behind them. -/
theorem RunsTo.replace {beyond : Nat} {skipped injected : List Token}
    (hs : process files (t :: rest) s = .ok (.replace beyond skipped injected) s₁) (h : RunsTo files (rest.drop beyond) s₁ r) :
    RunsTo files (t :: rest) s r := by
  cases r with
  | ok out s' => exact Run.replace hs h
  | error e s' =>
    obtain ⟨u, more, s₂, hrun, herror⟩ := h
    exact ⟨u, more, s₂, .replace hs hrun, herror⟩

/-- Preprocessing is a run, however it ends. -/
theorem runsTo_preprocessFrom (files : FileAccess) (before tokens : List Token) (s : Logged Session) :
    RunsTo files tokens s (preprocessFrom files before tokens s) := by
  fun_induction preprocessFrom files before tokens generalizing s with
  | case1 before => exact Run.done
  | case2 before t rest ihkeep ihreplace =>
    cases hs : process files (t :: rest) s with
    | error e s₁ =>
      rw [bind_of_error hs]
      exact ⟨t, rest, s, .done, hs⟩
    | ok action s₁ =>
      rw [bind_of_ok hs]
      cases action with
      | keep => exact .keep hs (ihkeep s₁)
      | replace beyond skipped injected => exact .replace hs (ihreplace beyond injected s₁)

/-- Preprocessing that gives tokens has come to the end of the source. -/
theorem run_of_ok (h : preprocess files tokens s = .ok out s') : Run files [] s' tokens s := by
  have hrun : RunsTo files tokens s (preprocess files tokens s) := runsTo_preprocessFrom files [] tokens s
  rw [h] at hrun
  exact hrun

/-- Preprocessing that stops at a fault has come to a step that does. -/
theorem run_of_error {e : Fault} (h : preprocess files tokens s = .error e s') :
    ∃ t rest s₁, Run files (t :: rest) s₁ tokens s ∧ process files (t :: rest) s₁ = .error e s' := by
  have hrun : RunsTo files tokens s (preprocess files tokens s) := runsTo_preprocessFrom files [] tokens s
  rw [h] at hrun
  exact hrun

end

/-- The tokens that a run comes to are tokens of the source. -/
theorem Run.subset {files : FileAccess} {tokens after : List Token} {s s' : Logged Session} (h : Run files after s' tokens s) :
    after ⊆ tokens := by
  induction h with
  | done => exact List.Subset.refl _
  | @keep t rest _ _ _ _ ih => exact List.subset_cons_of_subset t ih
  | @replace t rest beyond _ _ _ _ _ _ ih => exact List.subset_cons_of_subset t (List.Subset.trans ih (List.drop_subset beyond rest))

end Prepass
