import Prepass.Path

/-!
# Settings

What all files of an analysis share: the macros defined before any source is read, the directories searched for included files, and
the encoding of files. Settings come from outside, where a value may be of the wrong kind; they are checked in a fixed order.
-/

namespace Prepass

/-- A value given for a setting: nothing, a text, a list whose items are texts or something else, or some other value that counts as
true or false. -/
inductive Given where
  | nothing
  | text (value : String)
  | list (items : List (Option String))
  | other (truth : Bool)
  deriving DecidableEq, Repr

/-- Whether a value counts as true. -/
def Given.truth : Given → Bool
  | .nothing => false
  | .text value => value ≠ ""
  | .list items => !items.isEmpty
  | .other truth => truth

/-- Why settings are refused: a value is of the wrong kind. -/
inductive SettingsError where
  | defines
  | includePaths
  | encoding
  | definition
  | settings
  deriving DecidableEq, Repr

/-- The wording of a refusal. -/
def SettingsError.message : SettingsError → String
  | .defines => "'defines' must be a list of strings."
  | .includePaths => "Each path in 'include_paths' must be PathLike."
  | .encoding => "'encoding' must be a string."
  | .definition => "'definition' must be a string."
  | .settings => "'configuration' must be a Configuration."

/-- The macros that every source sees, with their bodies as texts. -/
def standardMacros : List (String × String) :=
  [("__STDC__", "1"), ("__STDC_VERSION__", "201112L"), ("__STDC_HOSTED__", "1"), ("__OBJC__", "1"), ("__OBJC2__", "1"),
   ("__APPLE__", "1"), ("__MACH__", "1"), ("__GNUC__", "4"), ("__clang__", "1"), ("__LINE__", "1"), ("__FILE__", "\"file\""),
   ("__DATE__", "\"??? ?? ????\""), ("__TIME__", "\"??:??:??\"")]

/-- The settings of an analysis. -/
structure Settings where
  defines : List String := []
  includePaths : List Path := []
  standard : List (String × String) := standardMacros
  encoding : String := "utf-8"
  deriving DecidableEq, Repr

/-- The values given for settings. -/
structure Settings.Request where
  defines : Given := .nothing
  includePaths : Given := .nothing
  standard : Given := .other true
  encoding : Given := .text "utf-8"
  deriving DecidableEq, Repr

namespace Settings

/-- The texts of a value that is nothing or a list of texts. -/
def texts? : Given → Option (List String)
  | .nothing => some []
  | .list items => items.mapM id
  | _ => none

/-- The settings for given values. -/
def ofRequest (r : Request) : Except SettingsError Settings :=
  match texts? r.defines with
  | none => .error .defines
  | some defines =>
    match texts? r.includePaths with
    | none => .error .includePaths
    | some paths =>
      match r.encoding with
      | .text encoding =>
        .ok { defines, includePaths := paths.map Path.ofText, standard := if r.standard.truth then standardMacros else [],
              encoding }
      | _ => .error .encoding

/-- The settings of two texts: definitions with blanks between, and directories with colons between. -/
def ofTexts (defines paths : String) : Settings :=
  let directories := (Text.pieces (· = ':') paths.toList).filter (· ≠ [])
  { defines := Text.words defines, includePaths := directories.map fun cs => Path.ofText (String.ofList cs) }

/-- The settings with one more definition. -/
def define (s : Settings) : Given → Except SettingsError Settings
  | .text definition => .ok { s with defines := s.defines ++ [definition] }
  | _ => .error .definition

/-- The name that a definition text defines: what stands before the first parenthesis or equals sign. -/
def definedName (definition : String) : String :=
  String.ofList (Text.trim (definition.toList.takeWhile fun c => c ≠ '(' && c ≠ '='))

/-- The settings without the definitions of a name and without the standard macro of that name. -/
def undefine (s : Settings) (name : String) : Settings :=
  { s with defines := s.defines.filter (definedName · ≠ name), standard := s.standard.filter (·.1 ≠ name) }

/-- The settings with one more directory to search. -/
def addIncludePath (s : Settings) (path : String) : Settings :=
  { s with includePaths := s.includePaths ++ [Path.ofText path] }

end Settings

end Prepass
