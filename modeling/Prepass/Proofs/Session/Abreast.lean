import Prepass.Proofs.Macro.Balance
import Prepass.Proofs.Macro.Silence
import Prepass.Proofs.Session.Lockstep

/-!
# A shared session and one of its own

A file is preprocessed in two runs: in a session that other files went through before, and in one that no file went through. The shared
session has more records of include directives and more answers to lookups. The records are only added to, and the answers are those
that a search gives, so beside these the two sessions stay the same (`SessionM.steering_abreast`): both runs leave the same tokens, and
both record the same include directives.
-/

namespace Prepass

namespace Session

/-- The session without the records and the answers that last from file to file. -/
def core (s : Session) : Session :=
  { s with included := [], missing := [], lookups := [] }

/-- In a file that includes no other, a token that was read from it is at a place in it. -/
theorem fileName_of_uri {s : Session} {t : Token} (hfile : s.currentFile = some t.uri) (hincluded : s.conditional.includeFile = none) :
    s.fileName t = t.uri := by
  have hunder : s.fileUnderAnalysis = some t.uri := by
    rw [fileUnderAnalysis, hincluded, hfile]
    rfl
  unfold fileName
  rw [hunder]
  -- under an empty name the token is asked for its file, and it was read from the file at hand
  split
  · rfl
  · rename_i hsome
    exact (Option.some.inj hsome).symm
  · nomatch ‹some t.uri = none›

/-- Every answer that is kept is the one that a search gives. -/
def Truthful (files : FileAccess) (s : Session) : Prop :=
  ∀ what answer, s.lookups.lookup what = some answer → answer = files.search what.path (s.searchPath what)

/-- One more answer that a search gave leaves the answers truthful. -/
theorem Truthful.cons {files : FileAccess} {s : Session} (h : s.Truthful files) (what : Lookup) :
    Truthful files { s with lookups := (what, files.search what.path (s.searchPath what)) :: s.lookups } := by
  intro what' answer hanswer
  dsimp only at hanswer
  rw [List.lookup_cons] at hanswer
  split at hanswer
  · rename_i hsame
    obtain rfl : what' = what := by simpa using hsame
    exact (Option.some.inj hanswer).symm
  · exact h what' answer hanswer

/-- A shared session and one of its own: they differ in the answers that are kept, and in the records that the shared one had before
the file. -/
structure Sharing (files : FileAccess) (file : String) (before s own : Session) : Prop where
  core_eq : s.core = own.core
  truthful : s.Truthful files
  truthful_own : own.Truthful files
  included_eq : s.included = own.included ++ before.included
  missing_eq : s.missing = own.missing ++ before.missing
  included_own : ∀ e ∈ own.included, e.1 = file
  missing_own : ∀ e ∈ own.missing, e.1 = file

end Session

namespace SessionM

variable {files : FileAccess} {file : String} {before : Session} {s s' : Logged Session}

/-- A truthful session finds what a search gives, and no more than its answers change. -/
theorem lookUp_of_truthful (h : s.state.Truthful files) (what : Lookup) :
    ∃ lookups, lookUp files what s = .ok (files.search what.path (s.state.searchPath what)) { s with state := { s.state with lookups } } ∧
      Session.Truthful files { s.state with lookups } := by
  unfold lookUp
  cases hkept : s.state.lookups.lookup what with
  | some answer =>
    obtain rfl := h what answer hkept
    exact ⟨s.state.lookups, rfl, h⟩
  | none => exact ⟨_, rfl, h.cons what⟩

/-- A shared session and one of its own while a file is preprocessed. At the end of the file nothing of it is left in the session, but for
records and answers. -/
structure Abreast (files : FileAccess) (file : String) (before : Session) (s s' : Logged Session) : Prop
    extends Session.Sharing files file before s.state s'.state where
  finish_eq : s'.state.core.finish = before.core
  currentFile_eq : s'.state.currentFile = some file
  includeFile_eq : s'.state.conditional.includeFile = none

namespace Abreast

/-- What was told has no part in it. -/
theorem of_state_eq {t t' : Logged Session} (h : Abreast files file before s s') (hs : t.state = s.state) (hs' : t'.state = s'.state) :
    Abreast files file before t t' := by
  obtain ⟨state, latest⟩ := t
  obtain ⟨state', latest'⟩ := t'
  dsimp only at hs hs'
  subst hs hs'
  exact { h with }

theorem expander_eq (h : Abreast files file before s s') : s.state.expander = s'.state.expander := by
  have hcore := congrArg Session.expander h.core_eq
  exact hcore

theorem settings_eq (h : Abreast files file before s s') : s.state.settings = s'.state.settings := by
  have hcore := congrArg Session.settings h.core_eq
  exact hcore

theorem conditional_eq (h : Abreast files file before s s') : s.state.conditional = s'.state.conditional := by
  have hcore := congrArg Session.conditional h.core_eq
  exact hcore

theorem fileName_eq (t : Token) (h : Abreast files file before s s') : s.state.fileName t = s'.state.fileName t := by
  have hcore := congrArg (Session.fileName · t) h.core_eq
  exact hcore

/-- Every token of the file is at a place in the file. -/
theorem fileName_own {t : Token} (hsource : t.uri = file) (h : Abreast files file before s s') : s'.state.fileName t = file := by
  subst hsource
  exact Session.fileName_of_uri h.currentFile_eq h.includeFile_eq

end Abreast

/-- An expansion is the same in both sessions when it neither listens to what was told nor changes the expander. -/
theorem abreast_expand {α : Type} {faults : List ExpandError} {work : Expand α} (hdeaf : Deaf work) (hrestores : Restores faults work) :
    Respects (Abreast files file before) (expand work) := by
  intro s s' h
  have hmatch := hdeaf (s.withState s.state.expander) (s'.withState s'.state.expander) h.expander_eq
  have hsame {e : Logged Expander} {t : Logged Session} (he : e.state = t.state.expander) :
      (e.withState { t.state with expander := e.state }).state = t.state := by
    simp only [Logged.withState, he]
  rcases hmatch.cases with ⟨a, e, e', hw, hw', -⟩ | ⟨cause, e, e', hw, hw', -⟩
  · rw [expand_of_ok hw, expand_of_ok hw']
    exact .ok a (h.of_state_eq (hsame (hrestores.state_of_ok hw)) (hsame (hrestores.state_of_ok hw')))
  · rw [expand_of_error hw, expand_of_error hw']
    exact .error _ (h.of_state_eq (hsame (hrestores.state_of_error hw)) (hsame (hrestores.state_of_error hw')))

/-- A lookup has the same answer in both sessions. -/
theorem abreast_lookUp (what : Lookup) : Respects (Abreast files file before) (lookUp files what) := by
  intro s s' h
  obtain ⟨lookups, hfind, htruthful⟩ := lookUp_of_truthful h.truthful what
  obtain ⟨lookups', hfind', htruthful'⟩ := lookUp_of_truthful h.truthful_own what
  have hpath : s.state.searchPath what = s'.state.searchPath what := by
    unfold Session.searchPath
    rw [h.settings_eq]
  rw [hfind, hfind', hpath]
  exact .ok _ { h with truthful := htruthful, truthful_own := htruthful' }

/-- A change of the table that the end of the file takes back. -/
theorem abreast_mapTable (f : Table → Table) (hf : ∀ t : Table, (f t).clearUser = t.clearUser) :
    Respects (Abreast files file before) (update (Session.mapTable f)) := by
  intro s s' h
  have hfinish : (s'.state.mapTable f).core.finish = s'.state.core.finish := by
    simp only [Session.core, Session.finish, Session.mapTable, Expander.withTable, hf]
  exact .ok () { h with core_eq := congrArg (Session.mapTable f) h.core_eq, finish_eq := hfinish.trans h.finish_eq }

/-- Single steps keep a shared session and one of its own abreast. -/
theorem steering_abreast : Steering files (· = file) (·.uri = file) (Abreast files file before) where
  table_eq h := congrArg Expander.table h.expander_eq
  fileName_eq t h := h.fileName_eq t
  noteAll ns s s' h := .ok () (h.of_state_eq rfl rfl)
  head tokens start := abreast_expand (Expand.deaf_head tokens start) (Expand.restores_head tokens start)
  all tokens := abreast_expand (Expand.deaf_all tokens) (Expand.restores_all tokens)
  mapTable := abreast_mapTable
  lookUp := abreast_lookUp
  included := by
    rintro name rfl i s s' h
    have heq : (name, i) :: s.state.included = ((name, i) :: s'.state.included) ++ before.included := by
      rw [h.included_eq, List.cons_append]
    exact .ok () { h with included_eq := heq, included_own := List.forall_mem_cons.mpr ⟨rfl, h.included_own⟩ }
  missing := by
    rintro name rfl i s s' h
    have heq : (name, i) :: s.state.missing = ((name, i) :: s'.state.missing) ++ before.missing := by
      rw [h.missing_eq, List.cons_append]
    exact .ok () { h with missing_eq := heq, missing_own := List.forall_mem_cons.mpr ⟨rfl, h.missing_own⟩ }
  conditional_eq h := h.conditional_eq
  update f hf s s' h := by
    have hcore := congrArg (fun s : Session => { s with conditional := f s.conditional }) h.core_eq
    exact .ok () { h with core_eq := hcore, includeFile_eq := (hf _).trans h.includeFile_eq }
  named hsource h := h.fileName_own hsource

end SessionM

end Prepass
