import Prepass.FileAccess
import Prepass.Session

/-!
# Included files

An include directive is recorded with its line and path, as found or as missing; the included file is not read. A path between quotes is
looked for in the directory of the file first, any path in the directories of the settings. Every answer is kept for the rest
of the session.
-/

namespace Prepass

/-- The directories in which an included file is looked for, in order. -/
def Session.searchPath (s : Session) (what : Lookup) : List String :=
  (if what.system then [] else [what.directory]) ++ s.settings.includePaths.map Path.text

/-- The absolute path of a file below one of several directories, the first that has it. -/
def FileAccess.search (files : FileAccess) (name : String) (dirs : List String) : Option String :=
  (dirs.map fun dir => files.absolute (Path.join dir name)).find? files.isFile

/-- A path that is found is not empty, so that it cannot be taken for none. -/
theorem FileAccess.ne_empty_of_search {files : FileAccess} {name path : String} {dirs : List String}
    (h : files.search name dirs = some path) : path ≠ "" := by
  rintro rfl
  have hfile : files.isFile "" = true := List.find?_some h
  rw [files.isFile_empty] at hfile
  nomatch hfile

namespace SessionM

/-- The absolute path of an included file, if there is one. An earlier answer to the same question is given again. -/
def lookUp (files : FileAccess) (what : Lookup) : SessionM (Option String) := fun s =>
  match s.state.lookups.lookup what with
  | some answer => .ok answer s
  | none =>
    let answer := files.search what.path (s.state.searchPath what)
    .ok answer { s with state := { s.state with lookups := (what, answer) :: s.state.lookups } }

/-- The place of an included file in a tree, by its components. -/
def find (files : FileTree) (what : Lookup) : SessionM (Option (List String)) := do
  return (← lookUp files what).map Path.components

/-- The path of an include directive: a computed one is expanded first. -/
def includedPath (body : IncludeBody) : SessionM (Option IncludePath) := do
  match body with
  | .path p => return some p
  | .computed tokens =>
    match ← parse Parse.includePath (← expand (Expand.all tokens)) with
    | .ok p => return some p
    | .error _ => return none

/-- Records an include directive of a file. -/
def handleInclude (files : FileAccess) (l : DirectiveLine) (body : IncludeBody) (place : Place) : SessionM Unit := do
  match ← includedPath body with
  | none => note (.unresolvedInclude place l.spelling)
  | some p =>
    let seen : Include := { line := place.line, path := p.path }
    match ← lookUp files { path := p.path, directory := Path.directory place.file, system := p.system } with
    | some _ => update fun s => { s with included := IncludeLog.add s.included place.file seen }
    | none =>
      update fun s => { s with missing := IncludeLog.add s.missing place.file seen }
      note (.missingInclude place p.system p.path l.spelling)

end SessionM

end Prepass
