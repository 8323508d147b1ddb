import Prepass.Notice
import Prepass.Token

/-!
# Directives

The parsed forms of directive lines. A line keeps all its tokens beside the parts that its kind of directive has.
-/

namespace Prepass

/-- A path between angle brackets (`system`) or double quotes. -/
structure IncludePath where
  path : String
  system : Bool
  deriving DecidableEq, Repr

namespace IncludePath

/-- The summary of an include path. -/
def summary (p : IncludePath) : String :=
  "IncludePath(path=" ++ Text.quoted p.path ++ ",system=" ++ Token.flagText p.system ++ ")"

/-- The characters that no file name holds, in the order in which they are looked for. -/
def forbidden : List Char :=
  [Char.ofNat 0, '\n', '\r']

/-- The first forbidden character that a path holds. -/
def culprit? (path : String) : Option Char :=
  forbidden.find? (· ∈ path.toList)

/-- Whether a text is nothing but blanks. -/
def isVoid (path : String) : Bool :=
  path.toList.all Text.isBlank

/-- Whether a text could name a file: it is more than blanks and holds no forbidden character. -/
def isValid (path : String) : Bool :=
  !isVoid path && (culprit? path).isNone

/-- What checking a path gives to tell. -/
def check (path : String) : List Notice :=
  match culprit? path with
  | some c => if isVoid path then [] else [.rejectedPath c path]
  | none => []

end IncludePath

/-- The target of an include directive: a path, or tokens that expansion may turn into one. -/
inductive IncludeBody where
  | path (p : IncludePath)
  | computed (tokens : List Token)
  deriving DecidableEq, Repr

/-- What a directive line says. The parameters of a definition are absent when it is object-like. -/
inductive Directive where
  | define (name : Token) (params : Option (List Token)) (variadic : Option Token) (replacement : List Token)
  | undef (name : Token)
  | inclusion (body : IncludeBody)
  | ifdef (name : Token) (negated : Bool)
  | ifLine (expression : List Token)
  | elifLine (expression : List Token)
  | elseLine
  | endifLine
  | pragma (body : List Token)
  | error (body : List Token)
  | warning (body : List Token)
  | lineNumber (body : List Token)
  | unrecognized
  deriving DecidableEq, Repr

/-- A parsed directive line: its tokens and what it says. -/
structure DirectiveLine where
  tokens : List Token
  directive : Directive
  deriving DecidableEq, Repr

namespace DirectiveLine

/-- The token after the number sign. -/
def keyword? (l : DirectiveLine) : Option Token :=
  l.tokens[1]?

/-- The line as it was written, each run of blanks as one space. -/
def spelling (l : DirectiveLine) : String :=
  Token.layout l.tokens

end DirectiveLine

end Prepass
