import Mathlib
import Prepass.Proofs.Session.Abreast
import Prepass.Proofs.Session.Listing
import Prepass.Proofs.Session.Reachable
import Prepass.Scan

/-!
# Files do not see each other

Files are scanned one after another in one session, and each comes to what it comes to alone (`scanFiles_isolated`). Between files the
session is as it was at the start, but for records and answers (`SessionM.Consistent`): the answers are those that a search gives, and
every record of a file is one that scanning the file alone makes, so that a file scanned once more lists the same include directives.
-/

namespace Prepass

/-! ## The tokens of a file -/

/-- All tokens of a scan belong to the file that it is for. -/
theorem Lexer.uri_scan {line column : Int} {uri : String} {spaced : Bool} {cs : List Char} {t : Token}
    (h : t ∈ scan line uri column spaced cs) : t.uri = uri := by
  fun_induction scan line uri column spaced cs with
  | case1 => cases h
  | case2 column spaced c rest _ ih => exact ih h
  | case3 column spaced c rest _ kind length _ ih =>
    rcases List.mem_cons.mp h with rfl | h
    · rfl
    · exact ih h

/-- The tokens of a source belong to its file. -/
theorem Token.uri_ofLines {lines : List (List Char)} {uri : String} : ∀ t ∈ (ofLines lines uri).state, t.uri = uri := by
  intro t ht
  rcases List.mem_append.mp ht with ht | ht
  · obtain ⟨l, -, ht⟩ := List.mem_flatMap.mp ht
    unfold ofLogicalLine at ht
    split at ht
    · rw [List.mem_singleton.mp ht]
    · exact Lexer.uri_scan ht
  · rw [List.mem_singleton.mp ht]

namespace SessionM

variable {files : FileAccess} {file : String} {before base : Session} {s s' t : Logged Session} {r : ScanResult}

/-! ## One file in two sessions -/

/-- A shared session between two files and one of its own start a file abreast. -/
theorem abreast_begin (hfinish : s.state.core.finish = s.state.core) (htruthful : s.state.Truthful files)
    (hown : s'.state = s.state.core) (n : Notice) :
    Abreast files file s.state { s.note n with state := s.state.begin file } { s'.note n with state := s'.state.begin file } := by
  obtain ⟨own, latest⟩ := s'
  dsimp only at hown
  subst hown
  exact {
    core_eq := rfl
    truthful := htruthful
    truthful_own := nofun
    included_eq := rfl
    missing_eq := rfl
    included_own := nofun
    missing_own := nofun
    finish_eq := hfinish
    currentFile_eq := rfl
    includeFile_eq := congrArg (·.conditional.includeFile) hfinish.symm }

/-- Reading a file comes to the same in both sessions: it asks for the encoding, which they share, and for the file. -/
theorem respects_readText : Respects (Abreast files file before) (readText files file) := by
  refine respects_current_bind fun s s' h => ?_
  rw [h.settings_eq]
  split
  · exact .error _ h
  · cases files.contents file with
    | error e => exact .error _ h
    | ok bytes =>
      dsimp only
      cases files.decode s'.state.settings.encoding bytes with
      | none => exact .error _ h
      | some text => exact .ok _ h

/-- A file is preprocessed the same way in both sessions, also when it cannot be read. -/
theorem scanTokens_abreast (hfinish : s.state.core.finish = s.state.core) (htruthful : s.state.Truthful files)
    (hown : s'.state = s.state.core) :
    Matches (Abreast files file s.state) (scanTokens files file s) (scanTokens files file s') := by
  have hsource : Respects (Abreast files file s.state) (readText files file >>= fun text => do
      let source := Token.ofLines (physicalLines text) file
      noteAll source.notices
      preprocess files source.state) :=
    respects_readText.bind fun _ => (steering_abreast.noteAll _).bind fun _ => steering_abreast.preprocess Token.uri_ofLines
  have hfile : Matches (Abreast files file s.state) (preprocessFile files file s) (preprocessFile files file s') :=
    hsource _ _ (abreast_begin hfinish htruthful hown (.beginFile file))
  unfold scanTokens
  rcases hfile.cases with ⟨tokens, s₁, s₁', hs, hs', h₁⟩ | ⟨e, s₁, s₁', hs, hs', h₁⟩
  · rw [hs, hs']
    exact .ok _ h₁
  · rw [hs, hs']
    cases e with
    | file cause =>
      dsimp only
      cases cause.message? with
      | some reason => exact .ok none (h₁.of_state_eq rfl rfl)
      | none => exact .error _ h₁
    | _ => exact .error _ h₁

/-- A shared session and one of its own after a file: what they have beside records and answers is as it was before. -/
structure Ended (files : FileAccess) (file : String) (before : Session) (s s' : Logged Session) : Prop
    extends Session.Sharing files file before s.state s'.state where
  own_eq : s'.state.core = before.core

/-- At the end of the file both sessions have ended it. -/
theorem Abreast.ended (h : Abreast files file before s s') (n : Notice) :
    Ended files file before { s.note n with state := s.state.finish } { s'.note n with state := s'.state.finish } :=
  { h with core_eq := congrArg Session.finish h.core_eq, own_eq := h.finish_eq }

/-- Ending the file brings both sessions back to where they were, whatever came of the file. -/
theorem thenFinish_ended {α : Type} {work : SessionM α} (h : Matches (Abreast files file before) (work s) (work s')) :
    Matches (Ended files file before) (thenFinish work file s) (thenFinish work file s') := by
  unfold thenFinish
  rcases h.cases with ⟨a, s₁, s₁', hs, hs', h₁⟩ | ⟨e, s₁, s₁', hs, hs', h₁⟩
  · rw [hs, hs']
    exact .ok a (h₁.ended (.finishFile (some file)))
  · rw [hs, hs']
    exact .error e (h₁.ended (.finishFile (some file)))

/-- The result of a file in the session after it. -/
def resultIn (file : String) (s : Session) : Option (List Token) → ScanResult
  | none => { path := file }
  | some tokens => { path := file, tokens, included := s.includedIn file, missing := s.missingIn file }

/-- A result is that of its file. -/
theorem path_resultIn (s : Session) (found : Option (List Token)) : (resultIn file s found).path = file := by
  cases found <;> rfl

/-- A file that is worked through has the result that the session then gives. -/
theorem scanFile_of_ok {found : Option (List Token)}
    (h : thenFinish (scanTokens files file) file (s.note (.scanning file)) = .ok found t) :
    scanFile files file s = .ok (resultIn file t.state found) t := by
  have hnote : note (.scanning file) s = .ok () (s.note (.scanning file)) := rfl
  unfold scanFile
  rw [bind_of_ok hnote, bind_of_ok h]
  cases found <;> rfl

/-- A fault in the work on a file is a fault of scanning it. -/
theorem scanFile_of_error {e : Fault} (h : thenFinish (scanTokens files file) file (s.note (.scanning file)) = .error e t) :
    scanFile files file s = .error e t := by
  have hnote : note (.scanning file) s = .ok () (s.note (.scanning file)) := rfl
  unfold scanFile
  rw [bind_of_ok hnote, bind_of_error h]

/-- The result of scanning a file has its path. -/
theorem path_of_scanFile (h : scanFile files file s = .ok r t) : r.path = file := by
  cases hwork : thenFinish (scanTokens files file) file (s.note (.scanning file)) with
  | ok found t' =>
    rw [scanFile_of_ok hwork] at h
    cases h
    exact path_resultIn _ found
  | error e t' =>
    rw [scanFile_of_error hwork] at h
    nomatch h

/-! ## One file after others -/

/-- The session after a file that is scanned alone, from a session that no file went through. -/
def alone (files : FileAccess) (base : Session) (file : String) : Session :=
  (stateAfter (scanFile files file { state := base })).state

/-- Records that are among those that each file makes alone. -/
def Recorded (files : FileAccess) (base : Session) (log : Session → IncludeLog) (records : IncludeLog) : Prop :=
  ∀ e ∈ records, e ∈ log (alone files base e.1)

namespace Recorded

variable {log : Session → IncludeLog} {older : IncludeLog} {own : Session}

/-- The records of one more file. -/
theorem append (h : Recorded files base log older) (halone : alone files base file = own) (hown : ∀ e ∈ log own, e.1 = file) :
    Recorded files base log (log own ++ older) := by
  intro e he
  rcases List.mem_append.mp he with he | he
  · rw [hown e he, halone]
    exact he
  · exact h e he

/-- A file has no more records after others than it makes alone, also when it is one of the others. -/
theorem ofFile_append (h : Recorded files base log older) (halone : alone files base file = own) :
    (log own ++ older).ofFile file = (log own).ofFile file := by
  have hown : ∀ i, (file, i) ∈ older → (file, i) ∈ log own := by
    intro i hi
    rw [← halone]
    exact h (file, i) hi
  refine IncludeLog.ofFile_congr fun i => ?_
  rw [List.mem_append]
  exact ⟨fun hi => hi.elim id (hown i), .inl⟩

end Recorded

/-- A session between files, and the one it came from: they are the same beside records and answers, the answers are those that a search
gives, and the records of each file are among those that it makes alone. -/
structure Consistent (files : FileAccess) (base s : Session) : Prop where
  core_eq : s.core = base
  truthful : s.Truthful files
  included : Recorded files base Session.included s.included
  missing : Recorded files base Session.missing s.missing

/-- Scanning a file after others comes to what it comes to alone, and leaves a session in which the next file can be scanned. -/
theorem scanFile_consistent (hbase : base.finish = base) (hs : Consistent files base s.state) (h : scanFile files file s = .ok r t) :
    (∃ t', scanFile files file { state := base } = .ok r t') ∧ Consistent files base t.state := by
  have hfinish : s.state.core.finish = s.state.core := by rw [hs.core_eq, hbase]
  have hmatch : Matches (Ended files file s.state) (thenFinish (scanTokens files file) file (s.note (.scanning file)))
      (thenFinish (scanTokens files file) file (({ state := base } : Logged Session).note (.scanning file))) :=
    thenFinish_ended (scanTokens_abreast (s := s.note (.scanning file)) hfinish hs.truthful hs.core_eq.symm)
  rcases hmatch.cases with ⟨found, t₁, own, hok, hown, hended⟩ | ⟨e, t₁, own, hfault, -, -⟩
  · have halone : alone files base file = own.state := by
      unfold alone
      rw [scanFile_of_ok hown, stateAfter_ok]
    -- the shared session may have older records of this very file, but only such as the file makes alone
    have hresult : resultIn file t₁.state found = resultIn file own.state found := by
      cases found with
      | none => rfl
      | some tokens =>
        simp only [resultIn, Session.includedIn, Session.missingIn, hended.included_eq, hended.missing_eq]
        rw [hs.included.ofFile_append halone, hs.missing.ofFile_append halone]
    rw [scanFile_of_ok hok, hresult] at h
    cases h
    refine ⟨⟨own, scanFile_of_ok hown⟩, ?_, hended.truthful, ?_, ?_⟩
    · exact hended.core_eq.trans (hended.own_eq.trans hs.core_eq)
    · rw [hended.included_eq]
      exact hs.included.append halone hended.included_own
    · rw [hended.missing_eq]
      exact hs.missing.append halone hended.missing_own
  · rw [scanFile_of_error hfault] at h
    nomatch h

/-! ## Many files -/

/-- Files are scanned one after another. -/
theorem scanFiles_cons (path : String) (paths : List String) :
    scanFiles files (path :: paths) = (do
      let r ← scanFile files path
      let rest ← scanFiles files paths
      return r :: rest) :=
  List.mapM_cons

/-- Every file of a list comes to what it comes to alone: as one file leaves the session, the next one finds it. -/
theorem scanFiles_consistent (hbase : base.finish = base) {paths : List String} {results : List ScanResult}
    (hs : Consistent files base s.state) (h : scanFiles files paths s = .ok results t) :
    results.length = paths.length ∧ ∀ (i : Nat) (path : String), paths[i]? = some path →
      ∃ r t', results[i]? = some r ∧ scanFile files path { state := base } = .ok r t' := by
  -- consistency is what one file hands on to the next
  induction paths generalizing s results with
  | nil =>
    cases h
    exact ⟨rfl, nofun⟩
  | cons first paths ih =>
    rw [scanFiles_cons] at h
    obtain ⟨r, s₁, hfirst, h⟩ := exists_of_bind_ok h
    obtain ⟨rest, s₂, hrest, h⟩ := exists_of_bind_ok h
    cases h
    obtain ⟨⟨own, hown⟩, hs₁⟩ := scanFile_consistent hbase hs hfirst
    obtain ⟨hlength, hall⟩ := ih hs₁ hrest
    refine ⟨congrArg (· + 1) hlength, ?_⟩
    intro i path hpath
    cases i with
    | zero =>
      cases hpath
      exact ⟨r, own, rfl, hown⟩
    | succ i => exact hall i path hpath

/-- Scanning one file gives one result. -/
theorem scanFiles_singleton {path : String} (h : scanFile files path s = .ok r t) : scanFiles files [path] s = .ok [r] t := by
  rw [scanFiles_cons, bind_of_ok h]
  rfl

/-- A session for settings is consistent with itself, and as it would be after a file. -/
theorem consistent_of_ofSettings (files : FileAccess) {settings : Settings} (h : Session.ofSettings settings = .ok base) :
    base.finish = base ∧ Consistent files base base := by
  obtain ⟨table, htable, rfl⟩ := Session.eq_of_ofSettings h
  refine ⟨?_, rfl, nofun, nofun, nofun⟩
  simp only [Session.finish, Session.mapTable, Expander.withTable, htable]

end SessionM

/-- Files that are scanned one after another do not see each other: there is one result for each path, in order, and each is the result of
scanning the path alone in a new session of the same settings. -/
theorem scanFiles_isolated (files : FileAccess) {settings : Settings} {session : Session}
    (hsession : Session.ofSettings settings = .ok session) {paths : List String} {results : List ScanResult}
    (h : (SessionM.scanFiles files paths).run' { state := session } = some results) :
    results.length = paths.length ∧ ∀ (i : Nat) (path : String), paths[i]? = some path →
      ∃ r, results[i]? = some r ∧ r.path = path ∧ (SessionM.scanFiles files [path]).run' { state := session } = some [r] := by
  obtain ⟨t, hscan⟩ := run'_eq_some.mp h
  obtain ⟨hbase, hconsistent⟩ := SessionM.consistent_of_ofSettings files hsession
  obtain ⟨hlength, hall⟩ := SessionM.scanFiles_consistent hbase hconsistent hscan
  refine ⟨hlength, ?_⟩
  intro i path hpath
  obtain ⟨r, own, hr, hown⟩ := hall i path hpath
  refine ⟨r, hr, SessionM.path_of_scanFile hown, ?_⟩
  exact run'_eq_some.mpr ⟨own, SessionM.scanFiles_singleton hown⟩

/-- Files with their bytes: the first defines a name that the second has as well, includes the third and leaves a conditional open. -/
def FileAccess.homeFiles : List (String × List UInt8) :=
  [("/home/a.m", "#define F 8\nF\n#include \"h.h\"\n#if 0\n".toUTF8.data.toList),
   ("/home/b.m", "F \"".toUTF8.data.toList ++ [0x80] ++ "\"\n".toUTF8.data.toList),
   ("/home/h.h", [])]

/-- A system with these files, and with an encoding in which a byte is the sign of the euro. Paths that begin with a slash and have no dots
are absolute as they are. -/
def FileAccess.home : FileAccess where
  absolute path := path
  isFile path := (homeFiles.lookup path).isSome
  contents path :=
    match homeFiles.lookup path with
    | some bytes => .ok bytes
    | none => .error (.notFound path)
  decode name bytes := if name = "cp1252" then some (bytes.map fun b => if b = 0x80 then '€' else Char.ofNat b.toNat) else none
  isFile_empty := by decide

/-- Neither the definition nor the open conditional of the first file reaches the second one, a file that is not there has an empty result,
and the first file has the same result when it comes again. -/
theorem scanFiles_isolated_home : ∃ session results,
    Session.ofSettings { standard := [], encoding := "cp1252" } = .ok session ∧
    (SessionM.scanFiles .home ["/home/a.m", "/home/b.m", "/home/c.m", "/home/a.m"]).run' { state := session } = some results ∧
    (results.map fun r => (r.tokens.map (·.value), r.included)) =
      [(["8", ""], [{ line := 3, path := "h.h" }]), (["F", "\"€\"", ""], []), ([], []), (["8", ""], [{ line := 3, path := "h.h" }])] ∧
    (∃ r, results[1]? = some r ∧ (SessionM.scanFiles .home ["/home/b.m"]).run' { state := session } = some [r]) ∧
    ∃ r, results[3]? = some r ∧ (SessionM.scanFiles .home ["/home/a.m"]).run' { state := session } = some [r] := by
  have hscan : ((SessionM.scanFiles .home ["/home/a.m", "/home/b.m", "/home/c.m", "/home/a.m"]).run'
        { state := { settings := { standard := [], encoding := "cp1252" } } }).map
      (fun results => results.map fun r => (r.tokens.map (·.value), r.included)) =
      some [(["8", ""], [{ line := 3, path := "h.h" }]), (["F", "\"€\"", ""], []), ([], []),
        (["8", ""], [{ line := 3, path := "h.h" }])] := by
    cbv
  have hsession : Session.ofSettings { standard := [], encoding := "cp1252" } =
      .ok { settings := { standard := [], encoding := "cp1252" } } := rfl
  obtain ⟨results, h, hresults⟩ := Option.map_eq_some_iff.mp hscan
  obtain ⟨-, hall⟩ := scanFiles_isolated .home hsession h
  obtain ⟨b, hb, -, hbown⟩ := hall 1 "/home/b.m" rfl
  obtain ⟨a, ha, -, haown⟩ := hall 3 "/home/a.m" rfl
  exact ⟨_, results, hsession, h, hresults, ⟨b, hb, hbown⟩, a, ha, haown⟩

end Prepass
