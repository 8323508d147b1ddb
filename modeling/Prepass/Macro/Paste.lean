import Prepass.Token

/-!
# Pasting

The paste operator joins the tokens on its two sides into one, which stands where the left one stood. Operators in a row count as
one, and an operator without a token on one side leaves the other as it is.
-/

namespace Prepass.Paste

/-- Two tokens joined into one. -/
def glue (left right : Token) : Token :=
  { value := left.value ++ right.value, kind := left.kind, line := left.line, column := left.column, uri := left.uri,
    generated := true, spaced := left.spaced }

/-- Two tokens joined into one, where there are two. -/
def concatenate : Option Token → Option Token → Option Token
  | none, right => right
  | left, none => left
  | some left, some right => some (glue left right)

/-- A paste operator. -/
def isOperator (t : Token) : Bool :=
  t.value = "##"

/-- The tokens so far, latest first, with the last one joined to another. -/
def glueLatest : List Token → Token → List Token
  | [], right => [right]
  | left :: earlier, right => glue left right :: earlier

/-- The tokens after those in `latest`, which are latest first, with all operators carried out; `waiting` tells whether an operator
waits for the token on its right. -/
def pasteFrom (latest : List Token) (waiting : Bool) : List Token → List Token
  | [] => latest.reverse
  | t :: rest =>
    if isOperator t then pasteFrom latest true rest
    else if waiting then pasteFrom (glueLatest latest t) false rest
    else pasteFrom (t :: latest) false rest

/-- The tokens with all paste operators carried out, from left to right. -/
def paste (tokens : List Token) : List Token :=
  pasteFrom [] false tokens

end Prepass.Paste
