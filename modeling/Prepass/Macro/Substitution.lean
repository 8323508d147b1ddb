import Prepass.Macro.Arguments
import Prepass.Macro.Expander
import Prepass.Macro.Stringize

/-!
# Substituting arguments

Arguments take the place of parameters in the body of a macro. After a number sign the argument is spelled as a string literal, next
to a paste operator it stands as it is, and anywhere else it is expanded first. An omitted argument leaves nothing, and takes a
paste operator before it along, together with a comma before that.
-/

namespace Prepass.Substitution

/-- The tokens so far, latest first, without the last one. -/
def dropLatest : List Token → Expand (List Token)
  | [] => throw .nothingToDrop
  | _ :: earlier => pure earlier

/-- The text of a neighbouring token. -/
def textIs (t : Option Token) (v : String) : Bool :=
  t.any (·.value = v)

/-- The empty string literal in the place of an omitted argument. -/
def emptyLiteral (parameter : Token) : Token :=
  { value := "\"\"", kind := .stringLiteral, line := parameter.line, column := parameter.column, uri := parameter.uri,
    generated := true }

/-- What an omitted argument makes of the tokens so far; `before` holds the body before the parameter. All lists are latest first. -/
def omitted (parameter : Token) (before out : List Token) : Expand (List Token) := do
  if textIs before[0]? "#" then return emptyLiteral parameter :: (← dropLatest out)
  else if textIs before[0]? "##" then
    let out ← dropLatest out
    if textIs before[1]? "," then dropLatest out else return out
  else return out

/-- A token that holds a text in the place of an argument. -/
def inPlace (argument : Token) (text : String) : Token :=
  { value := text, kind := argument.kind, line := argument.line, column := argument.column, uri := argument.uri,
    generated := true }

/-- What an argument makes of the tokens so far; `before` holds the body before the parameter, latest first, and `after` the
body after it. -/
def given (expand : List Token → Expand (List Token)) (argument : Token) (before after out : List Token) : Expand (List Token) := do
  if textIs before[0]? "#" then
    return inPlace argument (Stringize.literal argument.value) :: (← dropLatest out)
  else if textIs before[0]? "##" || textIs after[0]? "##" then
    return inPlace argument argument.value :: out
  else
    let expanded ← expand (Token.ofText argument.value argument.line argument.uri)
    return inPlace argument (Token.spell expanded) :: out

/-- What a token of the body makes of the tokens so far: one that is no parameter is kept. -/
def substituteAt (expand : List Token → Expand (List Token)) (params : List String) (arguments : List Token) (t : Token)
    (before after out : List Token) : Expand (List Token) :=
  match params.idxOf? t.value with
  | none => pure (t :: out)
  | some index =>
    match arguments[index]? with
    | none => omitted t before out
    | some argument => given expand argument before after out

/-- Substitutes arguments in the rest of a body; `before` holds the body so far and `out` what it came to, both latest first. -/
def substituteFrom (expand : List Token → Expand (List Token)) (params : List String) (arguments : List Token)
    (before out : List Token) : List Token → Expand (List Token)
  | [] => pure out.reverse
  | t :: rest => do
    let out ← substituteAt expand params arguments t before rest out
    substituteFrom expand params arguments (t :: before) out rest

/-- Substitutes arguments for parameters in a body. -/
def substitute (expand : List Token → Expand (List Token)) (params : List String) (arguments body : List Token) :
    Expand (List Token) :=
  substituteFrom expand params arguments [] [] body

end Prepass.Substitution
