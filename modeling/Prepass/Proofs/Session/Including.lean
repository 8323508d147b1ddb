import Prepass.Proofs.Conditional.Passing
import Prepass.Proofs.Line.Accounting
import Prepass.Proofs.Scan.Isolation
import Prepass.Proofs.Session.Listing
import Prepass.Proofs.Session.Run
import Prepass.Proofs.Session.Segments
import Prepass.Proofs.Session.Undefining

/-!
# Include directives sorted

An include directive that a session carries out has a target: the path that it names, or the one that its tokens come to when they are
expanded (`Token.target?`). Each step of preprocessing records the target of the token at hand, if it has one, and nothing else
(`SessionM.process_records`): among the included files when a file is found in one of the directories that are looked through, and among
the missing ones otherwise. Answers that are kept play no part in it, since they are those that a search gives.

A whole run so records the targets of the directives that it comes to (`mem_records`). Logical lines begin on lines of their own, so a
run comes to one directive of a line at most, and what it records for a file is either included or missing, and never both
(`SessionM.preprocessText_sorts`).
-/

namespace Prepass

/-! ## Files that are found -/

/-- Joining a name to one of some directories names a file. -/
def FileAccess.Holds (files : FileAccess) (dirs : List String) (name : String) : Prop :=
  ∃ dir ∈ dirs, files.isFile (files.absolute (Path.join dir name)) = true

/-- A search finds a file when one of the directories has it. -/
theorem FileAccess.isSome_search (files : FileAccess) (name : String) (dirs : List String) :
    (files.search name dirs).isSome = true ↔ files.Holds dirs name := by
  simp [search, Holds, List.find?_isSome]

/-- The directories in which the target of an include directive is looked for: that of the file, unless it is a system path, and those of
the settings. -/
def Settings.directoriesFor (settings : Settings) (file : String) (p : IncludePath) : List String :=
  (if p.system then [] else [Path.directory file]) ++ settings.includePaths.map Path.text

/-! ## Targets -/

/-- The path that the body of an include directive comes to: tokens are expanded and then have to begin with an include path. -/
def Session.target? (s : Session) : IncludeBody → Option IncludePath
  | .path p => some p
  | .computed tokens =>
    match Expand.all tokens { state := s.expander } with
    | .error _ _ => none
    | .ok expansion _ =>
      match Parse.includePath { tokens := expansion } with
      | .ok p _ => some p
      | .error _ _ => none

/-- The target of a token in a session: that of an include directive, unless tokens are skipped. -/
def Token.target? (t : Token) (s : Session) : Option IncludePath :=
  if t.kind = .directive ∧ s.conditional.skipping = false then
    match t.line? with
    | none => none
    | some l =>
      match l.directive with
      | .inclusion body => s.target? body
      | _ => none
  else none

/-- In going through tokens, a session comes to an include directive of a line and carries it out with a target. -/
def Includes (files : FileAccess) (tokens : List Token) (s : Logged Session) (line : Int) (p : IncludePath) : Prop :=
  ∃ t rest s₁, Run files (t :: rest) s₁ tokens s ∧ t.line = line ∧ t.target? s₁.state = some p

/-! ## What a step records -/

/-- A record is in a longer log when it was there before or is the one added. -/
theorem IncludeLog.mem_add {l : IncludeLog} {file file' : String} {line : Int} {path : String} {i : Include} :
    (file', i) ∈ l.add file { line, path } ↔ (file', i) ∈ l ∨ file = file' ∧ line = i.line ∧ path = i.path := by
  obtain ⟨line', path'⟩ := i
  rw [add, List.mem_cons, Prod.mk.injEq, Include.mk.injEq, or_comm, eq_comm (b := file), eq_comm (b := line), eq_comm (b := path)]

namespace Session

/-- The session with a target recorded as included when it is found, and as missing otherwise. -/
def recorded (files : FileAccess) (s : Session) (place : Place) : Option IncludePath → Session
  | none => s
  | some p =>
    let seen : Include := { line := place.line, path := p.path }
    if (files.search p.path (s.settings.directoriesFor place.file p)).isSome then
      { s with included := IncludeLog.add s.included place.file seen }
    else { s with missing := IncludeLog.add s.missing place.file seen }

/-- A session with the records, the settings and the file of another one, and with truthful answers. -/
structure SameRecords (files : FileAccess) (s base : Session) : Prop where
  included_eq : s.included = base.included
  missing_eq : s.missing = base.missing
  settings_eq : s.settings = base.settings
  currentFile_eq : s.currentFile = base.currentFile
  includeFile_eq : s.conditional.includeFile = base.conditional.includeFile
  truthful : s.Truthful files

variable {files : FileAccess} {s : Session}

/-- A session with truthful answers has its own records. -/
theorem SameRecords.refl (h : s.Truthful files) : s.SameRecords files s :=
  ⟨rfl, rfl, rfl, rfl, rfl, h⟩

/-- Among the included files a target is added that is found. -/
theorem mem_included_recorded {place : Place} {target : Option IncludePath} {file : String} {i : Include} :
    (file, i) ∈ (s.recorded files place target).included ↔ (file, i) ∈ s.included ∨ ∃ p, target = some p ∧ place.file = file ∧
      place.line = i.line ∧ p.path = i.path ∧ files.Holds (s.settings.directoriesFor place.file p) p.path := by
  cases target with
  | none => simp [recorded]
  | some p =>
    have hsearch := files.isSome_search p.path (s.settings.directoriesFor place.file p)
    by_cases hholds : files.Holds (s.settings.directoriesFor place.file p) p.path
    · simp [recorded, hsearch.mpr hholds, IncludeLog.mem_add, hholds]
    · simp [recorded, mt hsearch.mp hholds, hholds]

/-- Among the missing files a target is added that is not found. -/
theorem mem_missing_recorded {place : Place} {target : Option IncludePath} {file : String} {i : Include} :
    (file, i) ∈ (s.recorded files place target).missing ↔ (file, i) ∈ s.missing ∨ ∃ p, target = some p ∧ place.file = file ∧
      place.line = i.line ∧ p.path = i.path ∧ ¬files.Holds (s.settings.directoriesFor place.file p) p.path := by
  cases target with
  | none => simp [recorded]
  | some p =>
    have hsearch := files.isSome_search p.path (s.settings.directoriesFor place.file p)
    by_cases hholds : files.Holds (s.settings.directoriesFor place.file p) p.path
    · simp [recorded, hsearch.mpr hholds, hholds]
    · simp [recorded, mt hsearch.mp hholds, IncludeLog.mem_add, hholds]

end Session

namespace SessionM

variable {files : FileAccess} {base : Session} {s s' : Logged Session} {α : Type}

/-- Two states of a session that are the same, with the records of another session. -/
def StillRecords (files : FileAccess) (base : Session) (s s' : Logged Session) : Prop :=
  s = s' ∧ s'.state.SameRecords files base

/-- An expansion records nothing. -/
theorem respects_expand_stillRecords (work : Expand α) : Respects (StillRecords files base) (expand work) := by
  rintro s _ ⟨rfl, h⟩
  cases hw : work (s.withState s.state.expander) with
  | ok a e =>
    rw [expand_of_ok hw]
    exact .ok a ⟨rfl, { h with }⟩
  | error cause e =>
    rw [expand_of_error hw]
    exact .error _ ⟨rfl, { h with }⟩

/-- Single steps of a session record nothing, apart from those that are there to do it. -/
theorem steering_stillRecords (files : FileAccess) (base : Session) : Steering files (fun _ => False) (fun _ => False) (StillRecords files base) where
  table_eq h := congrArg (·.state.table) h.1
  fileName_eq t h := congrArg (·.state.fileName t) h.1
  noteAll := by
    rintro ns s _ ⟨rfl, h⟩
    exact .ok () ⟨rfl, h⟩
  head tokens start := respects_expand_stillRecords _
  all tokens := respects_expand_stillRecords _
  mapTable := by
    rintro f - s _ ⟨rfl, h⟩
    exact .ok () ⟨rfl, { h with }⟩
  lookUp := by
    rintro what s _ ⟨rfl, h⟩
    obtain ⟨lookups, hfind, htruthful⟩ := lookUp_of_truthful h.truthful what
    rw [hfind]
    exact .ok _ ⟨rfl, { h with truthful := htruthful }⟩
  included _ hfile := hfile.elim
  missing _ hfile := hfile.elim
  conditional_eq h := congrArg (·.state.conditional) h.1
  update := by
    rintro f hf s _ ⟨rfl, h⟩
    exact .ok () ⟨rfl, { h with includeFile_eq := (hf _).trans h.includeFile_eq }⟩
  named hsource := hsource.elim

/-- Work that records nothing leaves the records as they were. -/
theorem sameRecords_after {w : SessionM α} (hw : Respects (StillRecords files base) w) (h : s.state.SameRecords files base) :
    (stateAfter (w s)).state.SameRecords files base := by
  rcases (hw s s ⟨rfl, h⟩).cases with ⟨a, s₁, s₁', hs, hs', hR⟩ | ⟨e, s₁, s₁', hs, hs', hR⟩
  · rw [hs']
    exact hR.2
  · rw [hs']
    exact hR.2

/-- An include directive comes to its target, and records nothing on the way; without a target it may stop at a fault. -/
theorem includedPath_target (h : s.state.Truthful files) (body : IncludeBody) :
    (∃ s₁, includedPath body s = .ok (s.state.target? body) s₁ ∧ s₁.state.SameRecords files s.state) ∨
    ∃ e s₁, includedPath body s = .error e s₁ ∧ s.state.target? body = none ∧ s₁.state.SameRecords files s.state := by
  have hkept := sameRecords_after ((steering_stillRecords files s.state).includedPath body) (.refl h)
  cases body with
  | path p => exact .inl ⟨s, rfl, .refl h⟩
  | computed tokens =>
    unfold includedPath at hkept ⊢
    dsimp only at hkept ⊢
    -- what was told before does not change what the tokens come to
    rcases (Expand.deaf_all tokens { state := s.state.expander } (s.withState s.state.expander) rfl).cases with
      ⟨expansion, e, e', hall, hall', -⟩ | ⟨cause, e, e', hall, hall', -⟩
    · rw [bind_of_ok (expand_of_ok hall')] at hkept ⊢
      cases hparse : Parse.includePath { tokens := expansion } with
      | ok p c =>
        have htarget : s.state.target? (.computed tokens) = some p := by simp only [Session.target?, hall, hparse]
        rw [bind_of_ok (parse_of_ok hparse _)] at hkept ⊢
        exact .inl ⟨_, congrArg (EStateM.Result.ok · _) htarget.symm, hkept⟩
      | error cause c =>
        have htarget : s.state.target? (.computed tokens) = none := by simp only [Session.target?, hall, hparse]
        rw [bind_of_ok (parse_of_error hparse _)] at hkept ⊢
        exact .inl ⟨_, congrArg (EStateM.Result.ok · _) htarget.symm, hkept⟩
    · have htarget : s.state.target? (.computed tokens) = none := by simp only [Session.target?, hall]
      rw [bind_of_error (expand_of_error hall')] at hkept ⊢
      exact .inr ⟨_, _, rfl, htarget, hkept⟩

/-- An include directive records its target, if it has one. -/
theorem handleInclude_records (h : s.state.Truthful files) (l : DirectiveLine) (body : IncludeBody) (place : Place) :
    (stateAfter (handleInclude files l body place s)).state.SameRecords files (s.state.recorded files place (s.state.target? body)) := by
  unfold handleInclude
  rcases includedPath_target h body with ⟨s₁, hpath, hkept⟩ | ⟨e, s₁, hpath, htarget, hkept⟩
  · rw [bind_of_ok hpath]
    cases s.state.target? body with
    | none => exact hkept
    | some p =>
      obtain ⟨lookups, hfind, htruthful⟩ :=
        lookUp_of_truthful hkept.truthful { path := p.path, directory := Path.directory place.file, system := p.system }
      have hdirs : s₁.state.searchPath { path := p.path, directory := Path.directory place.file, system := p.system } =
          s.state.settings.directoriesFor place.file p := by
        rw [Session.searchPath, hkept.settings_eq]
        rfl
      dsimp only
      rw [bind_of_ok hfind, hdirs, Session.recorded]
      cases files.search p.path (s.state.settings.directoriesFor place.file p) with
      | some path => exact { hkept with included_eq := congrArg (IncludeLog.add · _ _) hkept.included_eq, truthful := htruthful }
      | none => exact { hkept with missing_eq := congrArg (IncludeLog.add · _ _) hkept.missing_eq, truthful := htruthful }
  · rw [bind_of_error hpath, htarget]
    exact hkept

/-- A directive that is not an include directive records nothing. -/
theorem respects_carryOut {l : DirectiveLine} (hother : ∀ body, l.directive ≠ .inclusion body) (place : Place) :
    Respects (StillRecords files base) (carryOut files l place) := by
  have hR := steering_stillRecords files base
  unfold carryOut
  split
  · exact (hR.note _).bind fun _ => hR.mapTable _ fun _ => rfl
  · exact absurd ‹_› (hother _)
  · exact (hR.note _).bind fun _ => hR.mapTable _ fun t => Table.clearUser_undefine t _
  · exact .pure ()

/-- A line that is no include directive records nothing. -/
theorem respects_handleLine {l : DirectiveLine} (hother : ∀ body, l.directive ≠ .inclusion body) (t : Token) (place : Place) :
    Respects (StillRecords files base) (handleLine files l t place) := by
  have hR := steering_stillRecords files base
  unfold handleLine
  split
  · exact hR.handleIfdef _ _ t place
  · exact hR.handleElse place
  · exact hR.handleEndif place
  · exact hR.handleElif _ t place
  · exact hR.handleIf _ t place
  · refine respects_current_bind fun s s' h => ?_
    rw [hR.conditional_eq h]
    split
    · exact .ok () h
    · exact respects_carryOut hother place s s' h

/-- A directive records its target, if it has one, and nothing else. -/
theorem handleDirective_records (h : s.state.Truthful files) {t : Token} (hkind : t.kind = .directive) (place : Place) :
    (stateAfter (handleDirective files t place s)).state.SameRecords files (s.state.recorded files place (t.target? s.state)) := by
  have hR := steering_stillRecords files s.state
  cases hl : t.line? with
  | none =>
    have htarget : t.target? s.state = none := by simp [Token.target?, hl]
    rw [htarget, handleDirective_eq files hkind, hl]
    exact sameRecords_after ((hR.noteAll _).bind fun _ => hR.handleMalformed t) (.refl h)
  | some l =>
    rw [handleDirective_of_line hkind hl]
    by_cases hinclusion : ∃ body, l.directive = .inclusion body
    · obtain ⟨body, hbody⟩ := hinclusion
      have hskipping : (s.noteAll t.told).state.conditional.skipping = s.state.conditional.skipping := rfl
      unfold handleLine
      simp only [hbody]
      rw [current_bind, hskipping]
      cases hskip : s.state.conditional.skipping with
      | true =>
        have htarget : t.target? s.state = none := by simp [Token.target?, hskip]
        rw [htarget]
        exact .refl h
      | false =>
        have htarget : t.target? s.state = s.state.target? body := by simp [Token.target?, hkind, hskip, hl, hbody]
        rw [htarget]
        unfold carryOut
        simp only [hbody]
        exact handleInclude_records (s := s.noteAll t.told) h l body place
    · have hother : ∀ body, l.directive ≠ .inclusion body := fun body hbody => hinclusion ⟨body, hbody⟩
      have htarget : t.target? s.state = none := by
        unfold Token.target?
        rw [hl]
        dsimp only
        split
        · split
          · exact absurd ‹_› (hother _)
          · rfl
        · rfl
      rw [htarget]
      exact sameRecords_after (respects_handleLine hother t place) (.refl h)

/-- A step records the target of the token at hand, if it has one, and nothing else. -/
theorem process_records (h : s.state.Truthful files) (t : Token) (rest : List Token) :
    (stateAfter (process files (t :: rest) s)).state.SameRecords files (s.state.recorded files (s.place t) (t.target? s.state)) := by
  have hR := steering_stillRecords files s.state
  by_cases hkind : t.kind = .directive
  · have hafter : stateAfter (process files (t :: rest) s) = stateAfter (handleDirective files t (s.place t) s) := by
      rw [process_directive hkind]
      cases hd : handleDirective files t (s.place t) s with
      | ok done s₁ => rw [bind_of_ok hd]; rfl
      | error e s₁ => rw [bind_of_error hd]; rfl
    rw [hafter]
    exact handleDirective_records h hkind (s.place t)
  · have htarget : t.target? s.state = none := if_neg fun hboth => hkind hboth.1
    rw [htarget]
    have hsame : s.state.SameRecords files s.state := .refl h
    refine sameRecords_after ?_ hsame
    rw [process_other hkind]
    refine respects_current_bind fun s₁ s₁' h₁ => ?_
    rw [hR.fileName_eq t h₁, hR.conditional_eq h₁]
    split
    · exact .ok _ h₁
    · split
      · exact .ok _ h₁
      · split
        · exact .ok _ h₁
        · exact hR.handleName _ 0 _ s₁ s₁' h₁

end SessionM

/-! ## What a run records -/

section

variable {files : FileAccess} {t : Token} {rest tokens : List Token} {action : Action} {line : Int} {p p' : IncludePath}
  {s s₁ : Logged Session} {uri : String}

open SessionM

/-- A run comes to a directive with a target at the first token, or after the first step. -/
theorem Includes.cons_iff (hstep : process files (t :: rest) s = .ok action s₁) : Includes files (t :: rest) s line p ↔
    t.line = line ∧ t.target? s.state = some p ∨ Includes files (rest.drop action.beyond) s₁ line p := by
  constructor
  · rintro ⟨u, more, s₂, hrun, hline, htarget⟩
    cases hrun with
    | done => exact .inl ⟨hline, htarget⟩
    | keep hs h =>
      cases hstep.symm.trans hs
      exact .inr ⟨u, more, s₂, h, hline, htarget⟩
    | replace hs h =>
      cases hstep.symm.trans hs
      exact .inr ⟨u, more, s₂, h, hline, htarget⟩
  · rintro (⟨hline, htarget⟩ | ⟨u, more, s₂, hrun, hline, htarget⟩)
    · exact ⟨t, rest, s, .done, hline, htarget⟩
    · refine ⟨u, more, s₂, ?_, hline, htarget⟩
      cases action with
      | keep => exact .keep hstep hrun
      | replace beyond skipped injected => exact .replace hstep hrun

/-- A run that stops at the first token comes to no other one. -/
theorem Includes.of_error {e : Fault} (hstep : process files (t :: rest) s = .error e s₁) :
    Includes files (t :: rest) s line p ↔ t.line = line ∧ t.target? s.state = some p := by
  constructor
  · rintro ⟨u, more, s₂, hrun, hline, htarget⟩
    cases hrun with
    | done => exact ⟨hline, htarget⟩
    | keep hs h => cases hstep.symm.trans hs
    | replace hs h => cases hstep.symm.trans hs
  · rintro ⟨hline, htarget⟩
    exact ⟨t, rest, s, .done, hline, htarget⟩

/-- A run with no tokens left comes to no directive. -/
theorem not_includes_nil : ¬Includes files [] s line p := by
  rintro ⟨u, more, s₁, hrun, -⟩
  cases hrun

/-- Only directives have targets. -/
theorem Token.kind_of_target (h : t.target? s.state = some p) : t.kind = .directive := by
  unfold target? at h
  split at h
  · rename_i hboth
    exact hboth.1
  · cases h

/-- What a run comes to is among the tokens. -/
theorem Includes.exists_mem (h : Includes files tokens s line p) : ∃ u ∈ tokens, u.kind = .directive ∧ u.line = line := by
  obtain ⟨u, more, s₁, hrun, hline, htarget⟩ := h
  exact ⟨u, hrun.subset List.mem_cons_self, Token.kind_of_target htarget, hline⟩

/-- Of a line a run comes to one directive at most when no two directives stand on the same line. -/
theorem Includes.unique (hlines : tokens.Pairwise fun a b => a.kind = .directive → b.kind = .directive → a.line ≠ b.line)
    (h : Includes files tokens s line p) (h' : Includes files tokens s line p') : p = p' := by
  fun_induction steps files tokens s with
  | case1 s => exact absurd h not_includes_nil
  | case2 s t rest action s₁ hstep ih =>
    rw [Includes.cons_iff hstep] at h h'
    obtain ⟨hfirst, hrest⟩ := List.pairwise_cons.mp hlines
    -- a directive further on does not stand on the line of the first one
    have hapart {q q' : IncludePath} (hhere : t.line = line ∧ t.target? s.state = some q)
        (hlater : Includes files (rest.drop action.beyond) s₁ line q') : False := by
      obtain ⟨u, hu, hkind, hline⟩ := hlater.exists_mem
      exact hfirst u (List.mem_of_mem_drop hu) (Token.kind_of_target hhere.2) hkind (hhere.1.trans hline.symm)
    rcases h with h | h <;> rcases h' with h' | h'
    · exact Option.some.inj (h.2.symm.trans h'.2)
    · exact (hapart h h').elim
    · exact (hapart h' h).elim
    · exact ih (hrest.sublist (List.drop_sublist _ _)) h h'
  | case3 s t rest e s₁ hstep =>
    rw [Includes.of_error hstep] at h h'
    exact Option.some.inj (h.2.symm.trans h'.2)

/-- A session in a file, which includes no other, with truthful answers. -/
structure Session.InFile (files : FileAccess) (uri : String) (s : Session) : Prop where
  currentFile_eq : s.currentFile = some uri
  includeFile_eq : s.conditional.includeFile = none
  truthful : s.Truthful files

/-- A target is recorded for the file at hand, and nothing else changes in it. -/
theorem Session.InFile.of_step {s s' : Session} {place : Place} {target : Option IncludePath} (h : s.InFile files uri)
    (hrecords : s'.SameRecords files (s.recorded files place target)) : s'.InFile files uri ∧ s'.settings = s.settings := by
  have hsame : (s.recorded files place target).currentFile = s.currentFile ∧
      (s.recorded files place target).conditional = s.conditional ∧ (s.recorded files place target).settings = s.settings := by
    unfold recorded
    cases target with
    | none => exact ⟨rfl, rfl, rfl⟩
    | some p =>
      dsimp only
      split <;> exact ⟨rfl, rfl, rfl⟩
  obtain ⟨hfile, hconditional, hsettings⟩ := hsame
  refine ⟨⟨?_, ?_, hrecords.truthful⟩, hrecords.settings_eq.trans hsettings⟩
  · rw [hrecords.currentFile_eq, hfile, h.currentFile_eq]
  · rw [hrecords.includeFile_eq, hconditional, h.includeFile_eq]

/-- A session stays in its file in every step, and the step adds the target of the token at hand to the records of the file. -/
theorem Session.InFile.step (h : s.state.InFile files uri) (huri : t.uri = uri) (rest : List Token)
    (hstep : stateAfter (process files (t :: rest) s) = s₁) :
    s₁.state.InFile files uri ∧ s₁.state.settings = s.state.settings ∧ ∀ i : Include,
      ((uri, i) ∈ s₁.state.included ↔ (uri, i) ∈ s.state.included ∨ ∃ p, t.target? s.state = some p ∧
        t.line = i.line ∧ p.path = i.path ∧ files.Holds (s.state.settings.directoriesFor uri p) p.path) ∧
      ((uri, i) ∈ s₁.state.missing ↔ (uri, i) ∈ s.state.missing ∨ ∃ p, t.target? s.state = some p ∧
        t.line = i.line ∧ p.path = i.path ∧ ¬files.Holds (s.state.settings.directoriesFor uri p) p.path) := by
  subst huri hstep
  have hrecords := process_records h.truthful t rest
  obtain ⟨hfile, hsettings⟩ := h.of_step hrecords
  have hplace : (s.place t).file = t.uri := fileName_of_uri h.currentFile_eq h.includeFile_eq
  refine ⟨hfile, hsettings, fun i => ⟨?_, ?_⟩⟩
  · rw [hrecords.included_eq, mem_included_recorded, hplace]
    simp only [true_and]
    rfl
  · rw [hrecords.missing_eq, mem_missing_recorded, hplace]
    simp only [true_and]
    rfl

/-- In a file, a run records the targets of the directives that it comes to: those that are found among the included files, and the others
among the missing ones. -/
theorem mem_records (h : s.state.InFile files uri) (huri : ∀ t ∈ tokens, t.uri = uri) (i : Include) :
    ((uri, i) ∈ (stateAfter (preprocess files tokens s)).state.included ↔ (uri, i) ∈ s.state.included ∨
      ∃ p, Includes files tokens s i.line p ∧ p.path = i.path ∧ files.Holds (s.state.settings.directoriesFor uri p) p.path) ∧
    ((uri, i) ∈ (stateAfter (preprocess files tokens s)).state.missing ↔ (uri, i) ∈ s.state.missing ∨
      ∃ p, Includes files tokens s i.line p ∧ p.path = i.path ∧ ¬files.Holds (s.state.settings.directoriesFor uri p) p.path) := by
  fun_induction steps files tokens s with
  | case1 s =>
    rw [preprocess, preprocessFrom]
    simp [not_includes_nil]
  | case2 s t rest action s₁ hstep ih =>
    have hafter : stateAfter (process files (t :: rest) s) = s₁ := congrArg stateAfter hstep
    obtain ⟨hfile, hsettings, hrecords⟩ := h.step (huri t List.mem_cons_self) rest hafter
    obtain ⟨hincluded, hmissing⟩ := ih hfile fun u hu => huri u (List.mem_cons_of_mem t (List.mem_of_mem_drop hu))
    rw [preprocess_step hstep, stateAfter_mapResult, hincluded, hmissing, (hrecords i).1, (hrecords i).2, hsettings]
    simp only [Includes.cons_iff hstep]
    grind
  | case3 s t rest e s₁ hstep =>
    have hafter : stateAfter (process files (t :: rest) s) = s₁ := congrArg stateAfter hstep
    obtain ⟨-, -, hrecords⟩ := h.step (huri t List.mem_cons_self) rest hafter
    rw [preprocess, preprocessFrom_error hstep, stateAfter_error, (hrecords i).1, (hrecords i).2]
    simp only [Includes.of_error hstep]
    grind

/-- A session stays in its file, with truthful answers, wherever a run comes to. -/
theorem Run.inFile {after : List Token} (hrun : Run files after s₁ tokens s) (h : s.state.InFile files uri)
    (huri : ∀ t ∈ tokens, t.uri = uri) : s₁.state.InFile files uri := by
  induction hrun with
  | done => exact h
  | keep hs _ ih =>
    exact ih (h.step (huri _ List.mem_cons_self) _ (congrArg stateAfter hs)).1 fun u hu => huri u (List.mem_cons_of_mem _ hu)
  | replace hs _ ih =>
    exact ih (h.step (huri _ List.mem_cons_self) _ (congrArg stateAfter hs)).1 fun u hu =>
      huri u (List.mem_cons_of_mem _ (List.mem_of_mem_drop hu))

end

/-! ## A text -/

/-- No two directives of a source stand on the same line. -/
theorem Token.directives_apart (lines : List (List Char)) (uri : String) :
    (ofLines lines uri).state.Pairwise fun a b => a.kind = .directive → b.kind = .directive → a.line ≠ b.line := by
  refine List.pairwise_append.mpr ⟨List.pairwise_flatMap.mpr ⟨?_, ?_⟩, List.pairwise_singleton _ _, ?_⟩
  · intro l _
    -- a directive is all of its logical line
    unfold ofLogicalLine
    split
    · exact List.pairwise_singleton _ _
    · exact List.pairwise_of_forall_mem_list fun a ha _ _ hkind => absurd hkind (lexed_of_mem ha).kind_ne.2
  · refine (Splice.startLine_ofLines lines).imp fun hlt a ha b hb _ _ => ?_
    rw [line_ofLogicalLine a ha, line_ofLogicalLine b hb]
    exact Int.ne_of_lt hlt
  · intro a _ b hb _ hkind
    rw [List.mem_singleton.mp hb] at hkind
    cases hkind

namespace SessionM

/-- A session at the start of a text, with what reading its lines told. -/
def atStart (s : Logged Session) (text uri : String) : Logged Session :=
  ((s.note (.beginFile uri)).withState (s.state.begin uri)).noteAll (Token.ofSource text uri).notices

/-- Preprocessing a text in a session without a file is going through its tokens from there. -/
theorem preprocessText_of_none {s : Logged Session} (h : s.state.currentFile = none) (files : FileAccess) (text uri : String) :
    preprocessText files text uri s = preprocess files (Token.ofSource text uri).state (atStart s text uri) := by
  unfold preprocessText
  rw [current_bind, h]
  rfl

end SessionM

/-- The include directives that going through tokens from a session comes to, sorted: a line and a path are recorded for a file just when
the directive of that line is carried out with that path, as included when one of the directories has the path as a file, as missing
otherwise, and not as both. Wherever the run comes to, a lookup has the answer of a search. -/
structure Sorts (files : FileAccess) (settings : Settings) (file : String) (tokens : List Token) (s : Logged Session) (final : Session) :
    Prop where
  recorded_iff (i : Include) : i ∈ final.includedIn file ∨ i ∈ final.missingIn file ↔ ∃ p, Includes files tokens s i.line p ∧ p.path = i.path
  apart (i : Include) : ¬(i ∈ final.includedIn file ∧ i ∈ final.missingIn file)
  included_iff (line : Int) (p : IncludePath) : Includes files tokens s line p →
    ({ line, path := p.path } ∈ final.includedIn file ↔ files.Holds (settings.directoriesFor file p) p.path)
  answers {after : List Token} {s₁ : Logged Session} (what : Lookup) : Run files after s₁ tokens s →
    ∃ s₂, SessionM.lookUp files what s₁ = .ok (files.search what.path (s₁.state.searchPath what)) s₂

/-- In a session for settings, preprocessing a text sorts the include directives that it comes to, also when it stops at a fault. -/
theorem SessionM.preprocessText_sorts {settings : Settings} {session : Session} (h : Session.ofSettings settings = .ok session)
    (files : FileAccess) (text uri : String) (latest : List Notice) :
    Sorts files settings uri (Token.ofSource text uri).state (atStart { state := session, latest } text uri)
      (stateAfter (preprocessText files text uri { state := session, latest })).state := by
  obtain ⟨table, -, rfl⟩ := Session.ofSettings_eq_ok.mp h
  rw [preprocessText_of_none rfl]
  generalize hstart : atStart _ text uri = s
  have hfresh : s.state.included = [] ∧ s.state.missing = [] ∧ s.state.settings = settings := by
    subst hstart
    exact ⟨rfl, rfl, rfl⟩
  have hfile : s.state.InFile files uri := by
    subst hstart
    exact ⟨rfl, rfl, nofun⟩
  obtain ⟨hincluded, hmissing, hsettings⟩ := hfresh
  have huri : ∀ t ∈ (Token.ofSource text uri).state, t.uri = uri := Token.uri_ofLines
  have hlines := Token.directives_apart (physicalLines text.toList) uri
  have hrecords (i : Include) := mem_records hfile huri i
  simp only [hincluded, hmissing, hsettings, List.not_mem_nil, false_or, ← IncludeLog.mem_ofFile] at hrecords
  refine ⟨fun i => ⟨?_, ?_⟩, ?_, ?_, ?_⟩
  · rintro (hi | hi)
    · obtain ⟨p, hp, hpath, -⟩ := (hrecords i).1.mp hi
      exact ⟨p, hp, hpath⟩
    · obtain ⟨p, hp, hpath, -⟩ := (hrecords i).2.mp hi
      exact ⟨p, hp, hpath⟩
  · rintro ⟨p, hp, hpath⟩
    by_cases hholds : files.Holds (settings.directoriesFor uri p) p.path
    · exact .inl ((hrecords i).1.mpr ⟨p, hp, hpath, hholds⟩)
    · exact .inr ((hrecords i).2.mpr ⟨p, hp, hpath, hholds⟩)
  · rintro i ⟨hi, hi'⟩
    obtain ⟨p, hp, -, hholds⟩ := (hrecords i).1.mp hi
    obtain ⟨p', hp', -, hnone⟩ := (hrecords i).2.mp hi'
    obtain rfl := hp.unique hlines hp'
    exact hnone hholds
  · intro line p hp
    constructor
    · intro hi
      obtain ⟨p', hp', -, hholds⟩ := (hrecords _).1.mp hi
      obtain rfl := hp.unique hlines hp'
      exact hholds
    · intro hholds
      exact (hrecords _).1.mpr ⟨p, hp, rfl, hholds⟩
  · intro after s₁ what hrun
    obtain ⟨lookups, hfind, -⟩ := lookUp_of_truthful (hrun.inFile hfile huri).truthful what
    exact ⟨_, hfind⟩

/-- Settings with a directory of headers. -/
def Settings.withHeaders : Settings where
  includePaths := [Path.ofText "/usr/include"]
  standard := []

/-- A system with a header beside the sources, and one among the headers. Paths that begin with a slash and have no dots are absolute as
they are. -/
def FileAccess.headers : FileAccess where
  absolute path := path
  isFile path := ["/src/a.h", "/usr/include/b.h"].contains path
  contents path := if ["/src/a.h", "/usr/include/b.h"].contains path then .ok [] else .error (.notFound path)
  decode name bytes := (Text.Encoding.ofName? name).map (·.decode bytes)
  isFile_empty := by decide

/-- A text that includes a header by a macro, one by its path, one that is skipped, and one in the wrong place. -/
def including : String :=
  "#define A \"a.h\"\n#include A\n#import <b.h>\n#if 0\n#include \"c.h\"\n#endif\n#include <a.h>\n"

set_option maxRecDepth 2000 in
/-- The headers of the second and the third line are included, that of the seventh is missing, and nothing is recorded of the others. -/
theorem SessionM.preprocessText_sorts_including : ∃ session final, Session.ofSettings .withHeaders = .ok session ∧
    (stateAfter (preprocessText .headers including "/src/m.c" { state := session })).state = final ∧
    Sorts .headers .withHeaders "/src/m.c" (Token.ofSource including "/src/m.c").state
      (atStart { state := session } including "/src/m.c") final ∧
    final.includedIn "/src/m.c" = [{ line := 2, path := "a.h" }, { line := 3, path := "b.h" }] ∧
    final.missingIn "/src/m.c" = [{ line := 7, path := "a.h" }] := by
  have hsession : Session.ofSettings .withHeaders = .ok { settings := .withHeaders } := rfl
  have hrecords : (stateAfter (preprocessText .headers including "/src/m.c" { state := { settings := .withHeaders } })).state.included =
        [("/src/m.c", { line := 3, path := "b.h" }), ("/src/m.c", { line := 2, path := "a.h" })] ∧
      (stateAfter (preprocessText .headers including "/src/m.c" { state := { settings := .withHeaders } })).state.missing =
        [("/src/m.c", { line := 7, path := "a.h" })] := by
    cbv
    exact ⟨rfl, rfl⟩
  have hsorted : IncludeLog.ofFile [("/src/m.c", { line := 3, path := "b.h" }), ("/src/m.c", { line := 2, path := "a.h" })] "/src/m.c" =
      [{ line := 2, path := "a.h" }, { line := 3, path := "b.h" }] := by
    cbv
  refine ⟨_, _, hsession, rfl, preprocessText_sorts hsession .headers including "/src/m.c" [], ?_, ?_⟩
  · rw [Session.includedIn, hrecords.1, hsorted]
  · rw [Session.missingIn, hrecords.2]
    cbv

end Prepass
