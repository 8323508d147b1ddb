import Prepass.Notice
import Prepass.ParseError

/-!
# A place in a list of tokens

A parser reads a list of tokens from a place in it. What it has read, and the notices it has given, stay when it fails; where a
failed attempt must not count, the place is set back explicitly.
-/

namespace Prepass

/-- A place in a list of tokens, with the notices given so far. -/
structure Cursor where
  tokens : List Token
  pos : Nat := 0
  notices : List Notice := []
  deriving DecidableEq, Repr

/-- Work on a cursor that gives a value or is refused. -/
abbrev Parse := EStateM ParseError Cursor

namespace Cursor

/-- The tokens from the place on. -/
def rest (c : Cursor) : List Token :=
  c.tokens.drop c.pos

/-- The token at the place. -/
def peek? (c : Cursor) : Option Token :=
  c.tokens[c.pos]?

/-- Whether no tokens are left. -/
def atEnd (c : Cursor) : Bool :=
  c.tokens.length ≤ c.pos

/-- The cursor `n` tokens further. -/
def advance (c : Cursor) (n : Nat) : Cursor :=
  { c with pos := c.pos + n }

/-- The cursor after the last token. -/
def toEnd (c : Cursor) : Cursor :=
  { c with pos := c.tokens.length }

end Cursor

namespace Parse

/-- The token at the place, which stays. -/
def peek : Parse Token := fun c =>
  match c.peek? with
  | some t => .ok t c
  | none => .error .noTokens c

/-- Whether no tokens are left. -/
def atEnd : Parse Bool := fun c =>
  .ok c.atEnd c

/-- The token at the place, when it passes a test. -/
def token (test : Token → Bool) (otherwise : ParseError) : Parse Token := fun c =>
  match c.peek? with
  | some t => if test t then .ok t (c.advance 1) else .error otherwise c
  | none => .error .noTokens c

/-- A token of the given kind. -/
def kind (k : Token.Kind) : Parse Token :=
  token (·.kind = k) (.expectedKind k)

/-- A token with the given text and kind. -/
def value (v : String) (k : Token.Kind := .punctuator) : Parse Token :=
  token (fun t => t.kind = k ∧ t.value = v) (.expectedValue v)

/-- An identifier with one of the given texts. -/
def keyword (values : List String) : Parse Token :=
  token (fun t => t.kind = .identifier ∧ t.value ∈ values) (.expectedOneOf values)

/-- All tokens that are left. -/
def takeRest : Parse (List Token) := fun c =>
  .ok c.rest c.toEnd

/-- Gives a notice. -/
def note (ns : List Notice) : Parse Unit := fun c =>
  .ok () { c with notices := c.notices ++ ns }

/-- Work that, when it is refused, leaves the place where it was and is refused for the given cause. -/
def whole {α : Type} (p : Parse α) (otherwise : ParseError) : Parse α := fun c =>
  match p c with
  | .ok a c' => .ok a c'
  | .error _ c' => .error otherwise { c' with pos := c.pos }

/-- Work that may be refused: then nothing comes of it, and the place is where it was. -/
def optional {α : Type} (p : Parse α) : Parse (Option α) := fun c =>
  match p c with
  | .ok a c' => .ok (some a) c'
  | .error _ c' => .ok none { c' with pos := c.pos }

end Parse

end Prepass
