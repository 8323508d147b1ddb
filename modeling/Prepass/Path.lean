import Prepass.Text.Basic

/-!
# Paths

Paths of files, written with slashes. A path in normal form has no empty and no single-dot components; a double dot stays, because
what it means depends on the files. Only the lookup of included files removes double dots by the text alone.
-/

namespace Prepass

/-- The components of a path text, empty ones included. -/
def Path.components (text : String) : List String :=
  (Text.pieces (· = '/') text.toList).map String.ofList

/-- A path in normal form: what it begins with (nothing, one slash or two) and its components. -/
structure Path where
  root : String := ""
  parts : List String := []
  deriving DecidableEq, Repr

namespace Path

/-- The most bytes that a name can have in UTF-8. -/
def maxNameBytes : Nat := 255

/-- The most bytes that a path text can have in UTF-8. -/
def maxBytes : Nat := 4095

/-- Whether a component says nothing. -/
def isIdle (part : String) : Bool :=
  part = "" || part = "."

/-- The normal form of a path text. Two slashes in front stay, three or more count as one. -/
def ofText (text : String) : Path :=
  let slashes := (text.toList.takeWhile (· = '/')).length
  let root := if slashes = 0 then "" else if slashes = 2 then "//" else "/"
  { root, parts := (components text).filter (!isIdle ·) }

/-- The text of a path. -/
def text (p : Path) : String :=
  if p.parts = [] then (if p.root = "" then "." else p.root) else p.root ++ Text.join "/" p.parts

/-- The path with more components. -/
def append (p : Path) (parts : List String) : Path :=
  { p with parts := p.parts ++ parts }

/-- The text of a name from its last period on, if something stands on both sides of the period. -/
def suffix (name : String) : String :=
  let backward := name.toList.reverse
  let tail := backward.takeWhile (· ≠ '.')
  let stem := backward.drop (tail.length + 1)
  if tail = [] ∨ stem = [] then "" else String.ofList ('.' :: tail.reverse)

/-- The text of a path up to its last slash, without the slashes it then ends with, unless it is all slashes. -/
def directory (text : String) : String :=
  let backward := text.toList.reverse.dropWhile (· ≠ '/')
  match backward.dropWhile (· = '/') with
  | [] => String.ofList backward
  | inner => String.ofList inner.reverse

/-- A path text seen from a directory: one that begins with a slash stands for itself. -/
def join (dir name : String) : String :=
  match name.toList, dir.toList.getLast? with
  | '/' :: _, _ => name
  | _, none | _, some '/' => dir ++ name
  | _, some _ => dir ++ "/" ++ name

/-- The components that a path text comes to by the text alone, seen from the working directory and innermost first. A double dot removes
the component before it. There are none when the path leads out of the working directory. -/
def resolveFrom : List String → List String → Option (List String)
  | inner, [] => some inner
  | inner, part :: rest =>
    if isIdle part then resolveFrom inner rest
    else if part = ".." then
      match inner with
      | [] => none
      | _ :: outer => resolveFrom outer rest
    else resolveFrom (part :: inner) rest

/-- The components that a path text comes to by the text alone, seen from the working directory. -/
def resolve? (text : String) : Option (List String) :=
  if text.toList.head? = some '/' then none else (resolveFrom [] (components text)).map List.reverse

/-- The order of paths: component by component. -/
def partsBefore : List String → List String → Bool
  | [], _ => true
  | _ :: _, [] => false
  | a :: as, b :: bs => if a = b then partsBefore as bs else Text.before a b

end Path

end Prepass
