import Prepass.Line
import Prepass.Line.Pushback

/-!
# Removing comments

A cleaner reads the characters of a source and adds them to a logical line, leaving comments out. What it is in the middle of
is a stack of modes, with plain code at the bottom. The modes outlive the end of a physical line, so that block comments and
continued lines work, and the end of a logical line resets all of them but a block comment.
-/

namespace Prepass

/-- What a cleaner is in the middle of. A mode it does not know is kept by its name. -/
inductive Mode where
  | code
  | slash
  | lineComment
  | blockComment
  | blockStar
  | doubleQuote
  | singleQuote
  | escape
  | unknown (name : String)
  deriving DecidableEq, Repr

/-- Why a cleaner stops: a mode it does not know, no mode at all, or no room to put a character back. -/
inductive CleanerFault where
  | unknownMode
  | noMode
  | occupied
  deriving DecidableEq, Repr

/-- The wording of a fault; an empty stack of modes has none. -/
def CleanerFault.message? : CleanerFault → Option String
  | .unknownMode => some "Unknown parser state!"
  | .noMode => none
  | .occupied => some "iter_keep1 can only have one item put back at a time!"

/-- The modes of a cleaner, innermost first. -/
abbrev Modes := List Mode

/-- What a cleaner leaves: its modes, the line, and why it stopped early, if it did. -/
structure Cleaned where
  modes : Modes
  line : LogicalLine
  fault : Option CleanerFault := none
  deriving DecidableEq, Repr

namespace Cleaner

/-- The modes of a new cleaner. -/
def initial : Modes := [.code]

/-- Reads the characters of a stream into a line and leaves comments out. A slash waits for the character after it; when no comment
begins there, the slash is added and that character is put back. -/
def process (modes : Modes) (line : LogicalLine) (input : Pushback Char) : Cleaned :=
  match _h : input.next? with
  | none => { modes, line }
  | some (c, rest) =>
    match modes with
    | [] => { modes, line, fault := some .noMode }
    | .code :: below =>
      if c = '/' then process (.slash :: .code :: below) line rest
      else if c = '"' then process (.doubleQuote :: .code :: below) (line.push c) rest
      else if c = Text.apostrophe then process (.singleQuote :: .code :: below) (line.push c) rest
      else process (.code :: below) (line.push c) rest
    | .doubleQuote :: below =>
      if c = '\\' then process (.escape :: .doubleQuote :: below) (line.pushRaw c) rest
      else if c = '"' then process below (line.pushRaw c) rest
      else process (.doubleQuote :: below) (line.pushRaw c) rest
    | .singleQuote :: below =>
      if c = '\\' then process (.escape :: .singleQuote :: below) (line.pushRaw c) rest
      else if c = Text.apostrophe then process below (line.pushRaw c) rest
      else process (.singleQuote :: below) (line.pushRaw c) rest
    | .escape :: below => process below (line.pushRaw c) rest
    | .slash :: below =>
      if c = '/' then process (.lineComment :: below) line rest
      else if c = '*' then process (.blockComment :: below) line rest
      else
        match _hp : rest.putBack? (some c) with
        | none => { modes := below, line := line.push '/', fault := some .occupied }
        | some again => process below (line.push '/') again
    | .blockComment :: below =>
      if c = '*' then process (.blockStar :: .blockComment :: below) line rest
      else process (.blockComment :: below) line rest
    | .blockStar :: below =>
      if c = '/' then
        match below with
        | [] => { modes := [], line, fault := some .noMode }
        | _ :: outer => process outer line.pushSpace rest
      else if c = '*' then process (.blockStar :: below) line rest
      else process below line rest
    | .lineComment :: below => { modes := .lineComment :: below, line }
    | .unknown name :: below => { modes := .unknown name :: below, line, fault := some .unknownMode }
termination_by (input.size, modes.length)
decreasing_by
  any_goals exact Prod.Lex.left _ _ (Pushback.size_lt_of_next? _h)
  have hnext := Pushback.size_of_next? _h
  have hback := Pushback.size_of_putBack? _hp
  have hsize : again.size = input.size := by omega
  rw [hsize]
  exact Prod.Lex.right _ (by simp)

/-- Whether a cleaner is inside a block comment; it has to be in some mode. -/
def inBlockComment? : Modes → Option Bool
  | [] => none
  | top :: _ => some (top = .blockComment || top = .blockStar)

/-- What the end of a logical line leaves: a line comment becomes a space, a waiting slash is added, an open literal ends, and a
block comment goes on. The flag tells whether a literal was open. -/
def endLine (modes : Modes) (line : LogicalLine) : Cleaned × Bool :=
  match modes with
  | [] => ({ modes, line, fault := some .noMode }, false)
  | .lineComment :: _ => ({ modes := initial, line := line.pushSpace }, false)
  | .slash :: _ => ({ modes := initial, line := line.push '/' }, false)
  | .singleQuote :: _ => ({ modes := initial, line }, true)
  | .doubleQuote :: _ => ({ modes := initial, line }, true)
  | .escape :: _ => ({ modes := initial, line }, true)
  | _ => ({ modes, line }, false)

end Cleaner

end Prepass
