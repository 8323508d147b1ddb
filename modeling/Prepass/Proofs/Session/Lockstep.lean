import Prepass.Proofs.Session.Respects

/-!
# Preprocessing in two runs

A relation of sessions that single steps respect, and under which the states of the conditionals are the same, is respected by all of
preprocessing (`Steering.preprocess`). Directives are taken one after another, then tokens, then all tokens of a source.
-/

namespace Prepass

namespace Conditional

/-- Recording whether a branch was taken does not change the file. -/
theorem includeFile_mark (c : Conditional) (active : Bool) : (c.mark active).includeFile = c.includeFile := by
  unfold mark
  split <;> rfl

/-- Closing a conditional does not change the file. -/
theorem includeFile_close (c : Conditional) : c.close.includeFile = c.includeFile := by
  unfold close
  split <;> rfl

/-- Opening a malformed conditional does not change the file. -/
theorem includeFile_openMalformed (c : Conditional) : c.openMalformed.includeFile = c.includeFile := by
  unfold openMalformed
  split <;> rfl

/-- A malformed branch does not change the file. -/
theorem includeFile_branchMalformed (c : Conditional) : c.branchMalformed.includeFile = c.includeFile := by
  unfold branchMalformed
  split
  · rfl
  · split
    · rfl
    · exact includeFile_mark c true

end Conditional

namespace SessionM

variable {α : Type} {R : Logged Session → Logged Session → Prop}

/-- A relation of sessions that single steps and changes of the state of conditionals respect, and under which that state is the same.
Include directives are recorded for the files in `Names`, which the tokens in `Source` belong to. -/
structure Steering (files : FileAccess) (Names : String → Prop) (Source : Token → Prop)
    (R : Logged Session → Logged Session → Prop) : Prop extends Lasting files Names R where
  conditional_eq {s s' : Logged Session} : R s s' → s.state.conditional = s'.state.conditional
  update (f : Conditional → Conditional) (hf : ∀ c, (f c).includeFile = c.includeFile) : Respects R (updateConditional f)
  named {t : Token} {s s' : Logged Session} : Source t → R s s' → Names (s'.state.fileName t)

namespace Steering

variable {files : FileAccess} {Names : String → Prop} {Source : Token → Prop}

/-- Telling something when a group is skipped keeps both sessions in step. -/
theorem noteUnless (hR : Steering files Names Source R) (active : Bool) (n : Notice) :
    Respects R (if !active then SessionM.note n else pure ()) := by
  cases active with
  | true => exact .pure ()
  | false => exact hR.note n

/-- Opening a conditional keeps both sessions in step. -/
theorem openBranch (hR : Steering files Names Source R) (active : Bool) : Respects R (updateConditional (·.openBranch active)) :=
  hR.update (·.openBranch active) fun _ => rfl

/-- A directive that asks for a name has the same answer in both sessions, since the macros are the same. -/
theorem handleIfdef (hR : Steering files Names Source R) (name : Token) (negated : Bool) (t : Token) (place : Place) :
    Respects R (handleIfdef name negated t place) := by
  refine respects_current_bind fun s s' h => ?_
  rw [hR.conditional_eq h, hR.table_eq h]
  split
  · exact hR.update Conditional.nest (fun _ => rfl) s s' h
  · exact ((hR.openBranch _).bind fun _ => hR.noteUnless _ _) s s' h

/-- An if directive has the same condition in both sessions. -/
theorem handleIf (hR : Steering files Names Source R) (expression : List Token) (t : Token) (place : Place) :
    Respects R (handleIf expression t place) := by
  refine respects_current_bind fun s s' h => ?_
  rw [hR.conditional_eq h]
  split
  · exact hR.update Conditional.nest (fun _ => rfl) s s' h
  · have hopen (active : Bool) := (hR.openBranch active).bind fun _ => hR.noteUnless active (.conditionFalse place t.value)
    exact ((hR.note _).bind fun _ => (hR.condition expression t place).bind hopen) s s' h

/-- An elif directive has the same condition in both sessions, or is skipped in both. -/
theorem handleElif (hR : Steering files Names Source R) (expression : List Token) (t : Token) (place : Place) :
    Respects R (handleElif expression t place) := by
  refine respects_current_bind fun s s' h => ?_
  rw [hR.conditional_eq h]
  split
  · exact .ok () h
  · split
    · exact ((hR.note _).bind fun _ => hR.update Conditional.skipBranch fun _ => rfl) s s' h
    · have hlooking := hR.update ({ · with skipping := false }) fun _ => rfl
      have henter (active : Bool) : Respects R (updateConditional (·.enterBranch active)) :=
        hR.update (·.enterBranch active) fun c => Conditional.includeFile_mark c active
      have hdecide (active : Bool) := (henter active).bind fun _ => hR.noteUnless active (.conditionFalse place t.value)
      exact (hlooking.bind fun _ => (hR.note _).bind fun _ => (hR.condition expression t place).bind hdecide) s s' h

/-- An else directive is the last branch in both sessions, or in neither. -/
theorem handleElse (hR : Steering files Names Source R) (place : Place) : Respects R (handleElse place) := by
  refine respects_current_bind fun s s' h => ?_
  rw [hR.conditional_eq h]
  have helse := hR.update Conditional.elseBranch fun c => Conditional.includeFile_mark c true
  split
  · exact .ok () h
  · exact ((hR.note _).bind fun _ => helse) s s' h

/-- An endif directive closes the same conditional in both sessions. -/
theorem handleEndif (hR : Steering files Names Source R) (place : Place) : Respects R (handleEndif place) := by
  refine respects_current_bind fun s s' h => ?_
  rw [hR.conditional_eq h]
  have hclose : Respects R (updateConditional Conditional.close) := hR.update _ Conditional.includeFile_close
  split
  · exact ((hR.note _).bind fun _ => hclose) s s' h
  · exact hclose s s' h

/-- A directive that cannot be parsed counts as the same conditional in both sessions. -/
theorem handleMalformed (hR : Steering files Names Source R) (t : Token) : Respects R (handleMalformed t) := by
  unfold SessionM.handleMalformed
  split
  · exact .pure ()
  · split
    · exact hR.update _ Conditional.includeFile_openMalformed
    · split
      · exact hR.update _ Conditional.includeFile_branchMalformed
      · exact .pure ()

/-- A directive line keeps both sessions in step; what it includes is recorded for the same file. -/
theorem handleLine (hR : Steering files Names Source R) (l : DirectiveLine) (t : Token) {place : Place} (hplace : Names place.file) :
    Respects R (handleLine files l t place) := by
  unfold SessionM.handleLine
  split
  · exact hR.handleIfdef _ _ t place
  · exact hR.handleElse place
  · exact hR.handleEndif place
  · exact hR.handleElif _ t place
  · exact hR.handleIf _ t place
  · refine respects_current_bind fun s s' h => ?_
    rw [hR.conditional_eq h]
    split
    · exact .ok () h
    · exact hR.carryOut l hplace s s' h

/-- So does a directive token, whether or not it can be parsed. -/
theorem handleDirective (hR : Steering files Names Source R) (t : Token) {place : Place} (hplace : Names place.file) :
    Respects R (handleDirective files t place) := by
  refine (hR.parse _ _).bind fun found => ?_
  cases found with
  | ok l => exact hR.handleLine l t hplace
  | error e => exact (hR.note _).bind fun _ => hR.handleMalformed t

/-- What becomes of a token of the source is the same in both runs. -/
theorem processAt (hR : Steering files Names Source R) {tokens : List Token} (hsource : ∀ t ∈ tokens, Source t) (start : Nat) :
    Respects R (processAt files tokens start) := by
  unfold SessionM.processAt
  cases hget : tokens[start]? with
  | none => exact .pure _
  | some t =>
    refine respects_current_bind fun s s' h => ?_
    have hname := hR.named (hsource t (List.mem_of_getElem? hget)) h
    rw [hR.fileName_eq t h, hR.conditional_eq h]
    cases t.kind with
    | directive => exact ((hR.handleDirective t hname).bind fun _ => .pure _) s s' h
    | eof => exact .ok _ h
    | stringLiteral | numberLiteral => exact .ok _ h
    | _ =>
      dsimp only
      split
      · exact .ok _ h
      · exact hR.handleName tokens start _ s s' h

/-- Going through tokens keeps both sessions in step, step by step. -/
theorem preprocessFrom (hR : Steering files Names Source R) (out tokens : List Token) (hsource : ∀ t ∈ tokens, Source t) :
    Respects R (preprocessFrom files out tokens) := by
  -- an invocation takes up tokens beyond its name, so the induction is on the number of tokens that are left
  induction hn : tokens.length using Nat.strongRecOn generalizing out tokens with
  | ind n ih =>
    cases tokens with
    | nil =>
      rw [SessionM.preprocessFrom]
      exact .pure _
    | cons t rest =>
      rw [SessionM.preprocessFrom]
      refine (hR.processAt hsource 0).bind fun action => ?_
      have hrest : ∀ u ∈ rest, Source u := fun u hu => hsource u (List.mem_cons_of_mem _ hu)
      cases action with
      | keep => exact ih rest.length (by simp [← hn]) (t :: out) rest hrest rfl
      | replace beyond skipped injected =>
        have hless : (rest.drop beyond).length < n := by
          simp only [← hn, List.length_drop, List.length_cons]
          omega
        exact ih _ hless _ _ (fun u hu => hrest u (List.mem_of_mem_drop hu)) rfl

/-- Preprocessing the tokens of the source comes to the same in both runs. -/
theorem preprocess (hR : Steering files Names Source R) {tokens : List Token} (hsource : ∀ t ∈ tokens, Source t) :
    Respects R (preprocess files tokens) :=
  hR.preprocessFrom [] tokens hsource

end Steering

end SessionM

end Prepass
