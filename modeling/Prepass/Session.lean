import Prepass.Conditional
import Prepass.Expression
import Prepass.FileTree
import Prepass.Macro.Expansion
import Prepass.Settings

/-!
# Sessions

A session preprocesses files one after another. It holds the macros, the state of the conditionals of the file at hand, the include
directives seen in each file, and the included files looked up so far. At the end of a file all that belongs to the file is
forgotten, but not what was recorded about it.
-/

namespace Prepass

/-- Why work of a session stops: an expression or a constant has no value, an expansion stops, a file cannot be opened, the encoding is
unknown or its name has a null character, or no state has been saved. -/
inductive Fault where
  | eval (cause : EvalError)
  | expand (cause : ExpandError)
  | file (cause : FileError)
  | unknownEncoding
  | nullInEncoding
  | noSavedState
  deriving DecidableEq, Repr

/-- An include directive of a file: its line and its path. -/
structure Include where
  line : Int
  path : String
  deriving DecidableEq, Repr

/-- Include directives with the files they stand in, latest first. -/
abbrev IncludeLog := List (String × Include)

namespace IncludeLog

/-- The log with an include directive of a file. -/
def add (l : IncludeLog) (file : String) (i : Include) : IncludeLog :=
  (file, i) :: l

/-- The order of include directives: by line, then by path. -/
def before (a b : Include) : Bool :=
  if a.line = b.line then !Text.before b.path a.path else decide (a.line < b.line)

/-- The include directives of a file, by line and then by path, each once. -/
def ofFile (l : IncludeLog) (file : String) : List Include :=
  (((l.filter (·.1 = file)).map (·.2)).mergeSort before).eraseReps

end IncludeLog

/-- What is looked up: a path, the directory of the file it stands in, and whether it is a system path. -/
structure Lookup where
  path : String
  directory : String
  system : Bool
  deriving DecidableEq, Repr

/-- A preprocessing session. The saved states of conditionals are latest first. -/
structure Session where
  settings : Settings := {}
  expander : Expander := {}
  conditional : Conditional := {}
  saved : List Conditional := []
  currentFile : Option String := none
  included : IncludeLog := []
  missing : IncludeLog := []
  lookups : List (Lookup × Option String) := []
  deriving DecidableEq, Repr

/-- Work of a session. -/
abbrev SessionM := EStateM Fault (Logged Session)

namespace Session

/-- The macro table of a session. -/
def table (s : Session) : Table :=
  s.expander.table

/-- The session with a changed macro table. -/
def mapTable (f : Table → Table) (s : Session) : Session :=
  { s with expander := s.expander.withTable (f s.expander.table) }

/-- A table with the definitions of texts, in order. -/
def predefineAll : Table → List String → Except ParseError Table
  | t, [] => .ok t
  | t, definition :: rest =>
    match Macro.ofDefinition definition with
    | .ok m => predefineAll (t.predefine m) rest
    | .error e => .error e

/-- The session for settings. -/
def ofSettings (settings : Settings) : Except ParseError Session :=
  let standard := settings.standard.foldl (fun (t : Table) (name, body) =>
    t.predefine { name, shape := .object, body := Token.ofText body }) {}
  match predefineAll standard settings.defines with
  | .ok table => .ok { settings, expander := { table } }
  | .error e => .error e

/-- The file whose lines are being read: an included one comes first. -/
def fileUnderAnalysis (s : Session) : Option String :=
  s.conditional.includeFile <|> s.currentFile

/-- The name of the file that a token belongs to; without a file under analysis it is the one of the token. -/
def fileName (s : Session) (t : Token) : String :=
  match s.fileUnderAnalysis with
  | some "" => t.uri
  | some file => file
  | none => t.uri

/-- The session at the start of a file. -/
def begin (s : Session) (file : String) : Session :=
  { s with currentFile := some file }

/-- The session at the end of a file. -/
def finish (s : Session) : Session :=
  { s.mapTable Table.clearUser with conditional := {}, saved := [], currentFile := none }

/-- The session with the state of conditionals saved and a new one for an included file. -/
def pushState (s : Session) (file : Option String) : Session :=
  { s with saved := s.conditional :: s.saved, conditional := { includeFile := file } }

/-- The session with the state of conditionals saved last. -/
def popState? (s : Session) : Option Session :=
  match s.saved with
  | [] => none
  | c :: saved => some { s with conditional := c, saved }

/-- The text of the body of a macro. -/
def valueOf? (s : Session) (name : String) : Option String :=
  (s.table.get? name).map fun m => Token.spell m.body

/-- The include directives of a file whose targets were found. -/
def includedIn (s : Session) (file : String) : List Include :=
  s.included.ofFile file

/-- The include directives of a file whose targets were not found. -/
def missingIn (s : Session) (file : String) : List Include :=
  s.missing.ofFile file

end Session

/-- The wording of a fault; only some have one. -/
def Fault.message? : Fault → Option String
  | .eval (.parse e) => some e.message
  | .eval _ => none
  | .expand (.notDisabled name) => some ("Macro '" ++ name ++ "' is not disabled.")
  | .expand .pastEnd => some "Consumed past the end of the input."
  | .expand .tooDeep => some ""
  | .expand _ => none
  | .file e => e.message?
  | .unknownEncoding => none
  | .nullInEncoding => none
  | .noSavedState => some "No conditional state to restore."

namespace SessionM

/-- The session. -/
def current : SessionM Session := fun s =>
  .ok s.state s

/-- Changes the session. -/
def update (f : Session → Session) : SessionM Unit := fun s =>
  .ok () { s with state := f s.state }

/-- Changes the state of conditionals. -/
def updateConditional (f : Conditional → Conditional) : SessionM Unit :=
  update fun s => { s with conditional := f s.conditional }

/-- Gives a notice. -/
def note (n : Notice) : SessionM Unit := fun s =>
  .ok () (s.note n)

/-- Work on the expander of the session. -/
def expand {α : Type} (work : Expand α) : SessionM α := fun s =>
  match work (s.withState s.state.expander) with
  | .ok a e => .ok a (e.withState { s.state with expander := e.state })
  | .error cause e => .error (.expand cause) (e.withState { s.state with expander := e.state })

/-- Parses tokens; what the parser tells is told, also when it refuses them. -/
def parse {α : Type} (p : Parse α) (tokens : List Token) : SessionM (Except ParseError α) := fun s =>
  match p { tokens } with
  | .ok a c => .ok (.ok a) (s.noteAll c.notices)
  | .error e c => .ok (.error e) (s.noteAll c.notices)

/-- Starts a file. -/
def begin (file : String) : SessionM Unit := do
  note (.beginFile file)
  update (Session.begin · file)

/-- Ends a file. -/
def finish (file : Option String) : SessionM Unit := do
  note (.finishFile file)
  update Session.finish

/-- Restores the state of conditionals saved last. -/
def popState : SessionM Unit := fun s =>
  match s.state.popState? with
  | some state => .ok () { s with state }
  | none => .error .noSavedState s

/-- The text that invoking a macro with the argument list at the head of tokens comes to; empty when it does not expand. -/
def invoke (name : String) (tokens : List Token) : SessionM String := do
  match ← expand (Expand.head ({ value := name, kind := .identifier } :: tokens)) with
  | some e => return Token.spell e.tokens
  | none => return ""

end SessionM

end Prepass
