import Prepass.Line.Cleaner
import Prepass.Notice

/-!
# Logical lines of a source

The physical lines of a source, one after another, give its logical lines. A physical line that ends in a backslash, or inside a
block comment, goes on in the next one; any other ends the logical line, and one that is not blank is kept. Counted are the
physical lines and those of them that contribute more than blanks.
-/

namespace Prepass

/-- The characters of a physical line without its line end and a continuation backslash, and whether there was one. -/
def physicalBody (cs : List Char) : List Char × Bool :=
  let dropLast (c : Char) (r : List Char) : List Char := if r.head? = some c then r.tail else r
  let r := dropLast '\r' (dropLast '\n' cs.reverse)
  if r.head? = some '\\' then (r.tail.reverse, true) else (r.reverse, false)

/-- The physical lines of a text: it is cut after each line feed. -/
def physicalLines : List Char → List (List Char)
  | [] => []
  | c :: rest =>
    if c = '\n' then [c] :: physicalLines rest
    else match physicalLines rest with
      | [] => [[c]]
      | line :: more => (c :: line) :: more

/-- The logical lines of a source so far: the finished ones, latest first, the one under construction, the modes of the cleaner, the counts
of contributing and of all physical lines, whether the last physical line was continued, and the notices, latest first. -/
structure Splice where
  earlier : List LogicalLine := []
  line : LogicalLine := LogicalLine.startingAt 1
  modes : Modes := Cleaner.initial
  sloc : Nat := 0
  total : Nat := 0
  continued : Bool := false
  latest : List Notice := []
  deriving DecidableEq, Repr

namespace Splice

/-- The finished logical lines, in order. -/
def finished (s : Splice) : List LogicalLine :=
  s.earlier.reverse

/-- The notices given so far, in order. -/
def notices (s : Splice) : List Notice :=
  s.latest.reverse

/-- Whether the source is inside a block comment. -/
def inBlockComment (s : Splice) : Bool :=
  (Cleaner.inBlockComment? s.modes).getD false

/-- The source with the line under construction kept, unless it is blank. -/
def keepLine (s : Splice) : Splice :=
  if s.line.category = .blank then s else { s with earlier := s.line :: s.earlier }

/-- The source after the end of a logical line. -/
def endLine (s : Splice) : Splice :=
  let (cleaned, wasOpen) := Cleaner.endLine s.modes s.line
  let latest := if wasOpen then .openLiteral :: s.latest else s.latest
  let kept := { s with line := cleaned.line, modes := cleaned.modes, latest }.keepLine
  { kept with line := LogicalLine.startingAt (s.total + 1) }

/-- The source with the characters of one more physical line, before its end is looked at. A cleaner that started in code stops at
no fault, so the one of `process` is not looked at. -/
def readLine (s : Splice) (body : List Char) (continued : Bool) : Splice :=
  let number := s.total + 1
  let cleaned := Cleaner.process s.modes s.line { items := body }
  let added := cleaned.line.latest.take (cleaned.line.latest.length - s.line.latest.length)
  if added.any (!Text.isBlank ·) then
    { s with line := cleaned.line.addPhysical number, modes := cleaned.modes, sloc := s.sloc + 1, total := number, continued }
  else { s with line := cleaned.line, modes := cleaned.modes, total := number, continued }

/-- The source with one more physical line. -/
def feed (s : Splice) (physical : List Char) : Splice :=
  let (body, continued) := physicalBody physical
  let read := s.readLine body continued
  if continued || read.inBlockComment then read else read.endLine

/-- The source at its end: a last line that is not blank is kept, and what is left open is told. -/
def close (s : Splice) : Splice :=
  let kept := s.keepLine
  let latest := if s.continued then .continuedAtEnd :: kept.latest else kept.latest
  { kept with latest := if s.inBlockComment then .openCommentAtEnd :: latest else latest }

/-- The logical lines of the physical lines of a source. -/
def ofLines (lines : List (List Char)) : Splice :=
  (lines.foldl feed {}).close

end Splice

end Prepass
