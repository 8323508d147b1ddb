import Prepass.Text.Basic
import Prepass.Text.Quoted

/-!
# Preprocessing tokens

A token is a piece of source text with its kind and its place. Tokens are values: expansion makes new tokens and never changes
old ones.
-/

namespace Prepass

/-- The kinds of token. A whole directive line of a source is one token of kind `directive`. -/
inductive Token.Kind where
  | identifier
  | stringLiteral
  | characterLiteral
  | numberLiteral
  | punctuator
  | directive
  | eof
  deriving DecidableEq, Repr

/-- The name of a kind, as messages show it. -/
def Token.Kind.label : Token.Kind → String
  | .identifier => "IDENTIFIER"
  | .stringLiteral => "STRING_LITERAL"
  | .characterLiteral => "CHARACTER_LITERAL"
  | .numberLiteral => "NUMBER_LITERAL"
  | .punctuator => "PUNCTUATOR"
  | .directive => "PREPROCESSOR"
  | .eof => "EOF"

/-- A preprocessing token. `generated` marks tokens that expansion made, `spaced` those with a blank right before them, and
`written` is the text the token had when it was made. -/
structure Token where
  value : String
  kind : Token.Kind
  line : Int := 1
  column : Int := 0
  uri : String := ""
  generated : Bool := false
  spaced : Bool := false
  written : String := value
  deriving DecidableEq, Repr

namespace Token

/-- Two tokens are alike when they agree in all but the blank before them and the text they were made with. -/
def alike (a b : Token) : Bool :=
  a.value == b.value && a.kind == b.kind && a.line == b.line && a.column == b.column && a.uri == b.uri &&
    a.generated == b.generated

/-- The texts of tokens, with `spacer` between neighbours. -/
def spell (tokens : List Token) (spacer : String := " ") : String :=
  Text.join spacer (tokens.map value)

/-- The texts of tokens as they were set: one space before each token that had a blank before it. -/
def layout (tokens : List Token) : String :=
  String.join (tokens.map fun t => if t.spaced then " " ++ t.value else t.value)

/-- A truth value as summaries show it. -/
def flagText (b : Bool) : String :=
  if b then "True" else "False"

/-- The summary of a token, field by field. -/
def summary (t : Token) : String :=
  "Token(value=" ++ Text.quoted t.value ++ ", type=<TokenType." ++ t.kind.label ++ ": " ++ Text.quoted t.kind.label ++
    ">, line=" ++ toString t.line ++ ", column=" ++ toString t.column ++ ", uri=" ++ Text.quoted t.uri ++
    ", generated=" ++ flagText t.generated ++ ", prev_white=" ++ flagText t.spaced ++
    ", original_value=" ++ Text.quoted t.written ++ ")"

/-- The tokens on the line of `place`, side by side from its column on, one column apart. -/
def layFrom (place : Token) : Int → List Token → List Token
  | _, [] => []
  | column, t :: rest =>
    { t with line := place.line, column := column, uri := place.uri, generated := true } ::
      layFrom place (column + t.value.length + 1) rest

/-- The tokens on the line of `place`, side by side from its column on. -/
def relocate (tokens : List Token) (place : Token) : List Token :=
  layFrom place place.column tokens

end Token

end Prepass
