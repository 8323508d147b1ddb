import Prepass.Text.Basic
import Prepass.Text.Quoted

/-!
# Logical lines

A logical line is what one or more physical lines of a source come to once comments are blanks and continued lines are joined.
It is built character by character. Blanks outside literals are kept as spaces, so columns of the first physical line
survive; a comment becomes one space.
-/

namespace Prepass

/-- A logical line under construction: its characters, latest first, the physical lines it begins and ends on, and those of
them that contribute to it, in order. -/
structure LogicalLine where
  latest : List Char := []
  startLine : Int := 1
  endLine : Int := startLine
  physical : List Int := []
  deriving DecidableEq, Repr

/-- What a logical line is: nothing but blanks, a preprocessor directive, or source text. -/
inductive LogicalLine.Category where
  | blank
  | directive
  | source
  deriving DecidableEq, Repr

namespace LogicalLine

/-- The empty line that begins on a physical line. -/
def startingAt (n : Int) : LogicalLine :=
  { startLine := n }

/-- The characters of the line so far. -/
def chars (l : LogicalLine) : List Char :=
  l.latest.reverse

/-- The line with one more character, as it is. -/
def pushRaw (l : LogicalLine) (c : Char) : LogicalLine :=
  { l with latest := c :: l.latest }

/-- The line with one more character; a blank becomes a space. -/
def push (l : LogicalLine) (c : Char) : LogicalLine :=
  l.pushRaw (if Text.isBlank c then ' ' else c)

/-- The line with a space in place of a comment, unless it ends in a space already. -/
def pushSpace (l : LogicalLine) : LogicalLine :=
  if l.latest.head? = some ' ' then l else l.pushRaw ' '

/-- The line with one more contributing physical line. -/
def addPhysical (l : LogicalLine) (n : Int) : LogicalLine :=
  { l with physical := l.physical ++ [n], endLine := n }

/-- The characters of the line without the blanks at its end. -/
def body (l : LogicalLine) : List Char :=
  Text.trimEnd l.chars

/-- The text of the line. -/
def text (l : LogicalLine) : String :=
  String.ofList l.body

/-- The category of the line: it depends on the first character that is not blank. -/
def category (l : LogicalLine) : Category :=
  match Text.trimStart l.body with
  | [] => .blank
  | c :: _ => if c = '#' then .directive else .source

/-- The summary of the line. -/
def summary (l : LogicalLine) : String :=
  "logical_line(start_line=" ++ toString l.startLine ++ ",end_line=" ++ toString l.endLine ++ ",text=" ++
    Text.quoted l.text ++ ")"

end LogicalLine

end Prepass
