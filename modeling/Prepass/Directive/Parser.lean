import Prepass.Directive
import Prepass.Directive.Cursor
import Prepass.Token.Lexer

/-!
# Parsing directive lines

A directive line is a number sign and one of the known forms. The forms are tried in turn. A line with an unknown keyword is
not refused, but a known keyword in a line that has no known form is.
-/

namespace Prepass

namespace Parse

/-- The name of an unnamed variadic parameter. -/
def variadicName : String := "__VA_ARGS__"

/-- A period triple. -/
def isEllipsis (t : Token) : Bool :=
  t.kind = .punctuator ∧ t.value = "..."

/-- The unnamed variadic parameter that an ellipsis stands for. -/
def unnamedVariadic (ellipsis : Token) : Token :=
  { value := variadicName, kind := .identifier, line := ellipsis.line, column := ellipsis.column, uri := ellipsis.uri,
    generated := true }

/-- The parameters that follow `params` up to the closing parenthesis, which is not read, with the variadic one apart, and the number of
tokens read. -/
def parameters (params : List Token) : List Token → Except ParseError (List Token × Option Token) × Nat
  | [] => (.error .noTokens, 0)
  | p :: rest =>
    if isEllipsis p then (.ok (params, some (unnamedVariadic p)), 1)
    else if p.kind ≠ .identifier then (.error (.expectedKind .identifier), 0)
    else
      match rest with
      | [] => (.error .noTokens, 1)
      | t :: more =>
        if isEllipsis t then (.ok (params, some p), 2)
        else if t.value = ")" then (.ok (params ++ [p], none), 1)
        else if t.kind = .punctuator ∧ t.value = "," then
          let (result, read) := parameters (params ++ [p]) more
          (result, read + 2)
        else (.error (.expectedValue ","), 1)

/-- One parameter or more, up to the closing parenthesis, which is not read. -/
def someParameters : Parse (List Token × Option Token) := fun c =>
  match parameters [] c.rest with
  | (.ok found, read) => .ok found (c.advance read)
  | (.error e, read) => .error e (c.advance read)

/-- The parameters of a function-like macro, up to the closing parenthesis, which is not read. -/
def parameterList : Parse (List Token × Option Token) := do
  if (← peek).value = ")" then return ([], none)
  someParameters

/-- The name of a macro and its parameters: they are there when a parenthesis follows the name without a blank between. -/
def macroDefinition : Parse (Token × Option (List Token) × Option Token) := do
  let name ← kind .identifier
  if ← atEnd then return (name, none, none)
  let next ← peek
  if next.value ≠ "(" ∨ next.spaced then return (name, none, none)
  let _ ← value "("
  let (params, variadic) ← parameterList
  let _ ← value ")"
  return (name, some params, variadic)

/-- A definition. -/
def define : Parse Directive :=
  whole (do
    let _ ← keyword ["define"]
    let (name, params, variadic) ← macroDefinition
    return .define name params variadic (← takeRest)) (.invalidDirective "define")

/-- The removal of a definition. -/
def undef : Parse Directive :=
  whole (do
    let _ ← keyword ["undef"]
    return .undef (← kind .identifier)) (.invalidDirective "undef")

/-- Checks a path and gives the notices of the check. -/
def checkPath (path : String) : Parse Bool := do
  note (IncludePath.check path)
  return IncludePath.isValid path

/-- The tokens up to a closing angle bracket, which is not read. -/
def insideAngles : Parse (List Token) := fun c =>
  let path := c.rest.takeWhile (·.value ≠ ">")
  .ok path (c.advance path.length)

/-- A path between angle brackets. An invalid path is read, but nothing comes of it. -/
def systemPath : Parse (Option IncludePath) := do
  let _ ← value "<"
  let inside ← insideAngles
  let _ ← value ">"
  let path := Token.spell inside ""
  return if ← checkPath path then some ⟨path, true⟩ else none

/-- A path between double quotes. An invalid path, or a literal with a mark, is read, but nothing comes of it. -/
def localPath : Parse (Option IncludePath) := do
  let literal ← kind .stringLiteral
  if literal.value.toList.head? ≠ some '"' then return none
  let path := String.ofList (literal.value.toList.drop 1).dropLast
  return if ← checkPath path then some ⟨path, false⟩ else none

/-- An include path: between angle brackets, or between double quotes. Angle brackets around an invalid path are passed over. -/
def includePath : Parse IncludePath :=
  whole (do
    if let some (some found) ← optional systemPath then return found
    if let some (some found) ← optional localPath then return found
    throw .invalidPath) .invalidPath

/-- An inclusion. What is no include path is kept as tokens to expand. -/
def inclusion : Parse Directive :=
  whole (do
    let _ ← keyword ["include", "import", "include_next"]
    match ← optional includePath with
    | some path => return .inclusion (.path path)
    | none =>
      let body ← takeRest
      if body.isEmpty then throw .missingBody
      return .inclusion (.computed body)) (.invalidDirective "include")

/-- A test whether a macro is defined, or not defined. -/
def ifdef : Parse Directive :=
  whole (do
    let test ← keyword ["ifdef", "ifndef"]
    return .ifdef (← kind .identifier) (test.value = "ifndef")) (.invalidDirective "ifdef")

/-- The tokens of an expression. -/
def expression : Parse (List Token) := do
  let tokens ← takeRest
  if tokens.isEmpty then throw .missingBody
  return tokens

/-- A conditional. -/
def ifLine : Parse Directive :=
  whole (do
    let _ ← keyword ["if"]
    return .ifLine (← expression)) (.invalidDirective "if")

/-- A further branch of a conditional. -/
def elifLine : Parse Directive :=
  whole (do
    let _ ← keyword ["elif"]
    return .elifLine (← expression)) (.invalidDirective "elif")

/-- The last branch of a conditional. -/
def elseLine : Parse Directive :=
  whole (do
    let _ ← keyword ["else"]
    return .elseLine) (.invalidDirective "else")

/-- The end of a conditional. -/
def endifLine : Parse Directive :=
  whole (do
    let _ ← keyword ["endif"]
    return .endifLine) (.invalidDirective "endif")

/-- A directive whose content is free. -/
def message : Parse Directive := do
  let name ← keyword ["pragma", "error", "warning", "line"]
  let body ← takeRest
  return match name.value with
    | "pragma" => .pragma body
    | "error" => .error body
    | "warning" => .warning body
    | _ => .lineNumber body

/-- The forms of directives, in the order in which they are tried. -/
def forms : List (Parse Directive) :=
  [define, undef, inclusion, ifdef, ifLine, elifLine, elseLine, endifLine, message]

/-- The keywords of directives. -/
def keywords : List String :=
  ["define", "undef", "include", "import", "include_next", "ifdef", "ifndef", "if", "elif", "else", "endif", "pragma", "error",
   "warning", "line"]

/-- The first of several forms that is not refused. -/
def firstOf : List (Parse Directive) → Parse (Option Directive)
  | [] => pure none
  | form :: more => do
    match ← optional form with
    | some found => return some found
    | none => firstOf more

/-- A directive after its number sign. Tokens left over are told. -/
def directive : Parse Directive := do
  if ← atEnd then return .unrecognized
  match ← firstOf forms with
  | some found =>
    if !(← atEnd) then note [.extraTokens (Token.spell (← get).tokens)]
    return found
  | none =>
    let name ← peek
    if name.kind = .identifier ∧ name.value ∈ keywords then throw (.invalidDirective name.value)
    return .unrecognized

/-- A directive line. -/
def directiveLine : Parse DirectiveLine := do
  let _ ← whole (value "#") .notDirective
  return ⟨(← get).tokens, ← directive⟩

end Parse

/-- The directive line that a text is. -/
def DirectiveLine.ofText (text : String) (line : Int := 1) (uri : String := "") : EStateM.Result ParseError Cursor DirectiveLine :=
  Parse.directiveLine { tokens := Token.ofText text line uri }

end Prepass
