import Prepass.Session.Process
import Prepass.Text.LowerCase

/-!
# Scanning many files

The source files below a directory, and what preprocessing files one after another in one session comes to. What a file defines does not
reach the next one, and a file that cannot be read has an empty result.
-/

namespace Prepass

/-- What preprocessing a file comes to: its tokens and its include directives, with the target found or not. -/
structure ScanResult where
  path : String
  tokens : List Token := []
  included : List Include := []
  missing : List Include := []
  deriving DecidableEq, Repr

/-- The summary of a result. -/
def ScanResult.summary (r : ScanResult) : String :=
  "ScanResult(path=" ++ Text.quoted r.path ++ ",tokens=" ++ toString r.tokens.length ++ ",included=" ++
    toString r.included.length ++ ",missing=" ++ toString r.missing.length ++ ")"

/-- The suffixes of source files. -/
def sourceExtensions : List String :=
  [".h", ".m", ".mm", ".c"]

/-- The paths of the files below a directory that have one of the given suffixes, whatever the case of their letters. -/
def sourceFiles (files : FileTree) (root : String) (extensions : List String := sourceExtensions) :
    Except FileError (List String) :=
  let dir := Path.ofText root
  let wanted := extensions.map Text.lower
  (files.filesBelow dir).map fun found =>
    (found.filter fun parts => Text.lower (Path.suffix (parts.getLast?.getD "")) ∈ wanted).map fun parts => (dir.append parts).text

namespace SessionM

/-- Work after which a file is ended, also when the work stops at a fault. -/
def thenFinish {α : Type} (work : SessionM α) (file : String) : SessionM α := fun s =>
  match work s with
  | .ok a s => (do finish (some file); return a) s
  | .error e s => (do finish (some file); throw e) s

/-- Preprocesses a file; one that cannot be read is told and has no tokens. -/
def scanTokens (files : FileAccess) (file : String) : SessionM (Option (List Token)) := fun s =>
  match preprocessFile files file s with
  | .ok tokens s => .ok (some tokens) s
  | .error (.file e) s =>
    match e.message? with
    | some reason => .ok none (s.note (.unreadable file reason))
    | none => .error (.file e) s
  | .error e s => .error e s

/-- The result of one file. -/
def scanFile (files : FileAccess) (file : String) : SessionM ScanResult := do
  note (.scanning file)
  match ← thenFinish (scanTokens files file) file with
  | none => return { path := file }
  | some tokens =>
    let s ← current
    return { path := file, tokens, included := s.includedIn file, missing := s.missingIn file }

/-- The results of several files, in order. -/
def scanFiles (files : FileAccess) (paths : List String) : SessionM (List ScanResult) :=
  paths.mapM (scanFile files)

end SessionM

end Prepass
