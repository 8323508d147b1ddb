import Prepass.Directive.Parser

/-!
# Macros

A macro has a name, a shape and a body. An object-like macro stands alone; a function-like one is followed by arguments, and the
last parameter of a variadic one takes all arguments that are left.
-/

namespace Prepass

/-- Whether a macro takes arguments, and for which parameters. -/
inductive Macro.Shape where
  | object
  | function (params : List String)
  | variadic (params : List String) (last : String)
  deriving DecidableEq, Repr

/-- A macro definition. -/
structure Macro where
  name : String
  shape : Macro.Shape
  body : List Token
  deriving DecidableEq, Repr

namespace Macro

/-- The wording for a variadic macro without a parameter. -/
def needsParameter : String := "A variadic macro needs a variadic parameter."

/-- The macro with the given parameters, of which the last is variadic if so marked; a variadic macro needs one. -/
def ofParams? (name : String) (params : Option (List String)) (body : List Token) (variadic : Bool := false) : Option Macro :=
  match params, variadic with
  | none, false => some { name, shape := .object, body }
  | some names, false => some { name, shape := .function names, body }
  | none, true => none
  | some names, true => names.getLast?.map fun last => { name, shape := .variadic names.dropLast last, body }

/-- The macro of the parts of a definition. -/
def ofParts (name : Token) (params : Option (List Token)) (variadic : Option Token) (body : List Token) : Macro :=
  let shape : Shape := match params, variadic with
    | none, none => .object
    | some names, none => .function (names.map Token.value)
    | names, some last => .variadic ((names.getD []).map Token.value) last.value
  { name := name.value, shape, body }

/-- The parameters; an object-like macro has none at all. -/
def params? (m : Macro) : Option (List String) :=
  match m.shape with
  | .object => none
  | .function params => some params
  | .variadic params last => some (params ++ [last])

/-- Whether the last parameter takes all arguments that are left. -/
def isVariadic (m : Macro) : Bool :=
  match m.shape with
  | .variadic .. => true
  | _ => false

/-- Whether the macro takes arguments. -/
def isFunctionLike (m : Macro) : Bool :=
  m.params?.isSome

/-- Whether the macro can be invoked with the given number of arguments. -/
def accepts (m : Macro) (count : Nat) : Bool :=
  match m.shape with
  | .object => count == 0
  | .function params => count == params.length
  | .variadic params _ => params.length ≤ count

/-- The parameters between parentheses, with an ellipsis after a variadic one; nothing for an object-like macro. -/
def parameterText (m : Macro) (spacer : String) : String :=
  match m.params? with
  | none => ""
  | some params => "(" ++ Text.join spacer params ++ (if m.isVariadic then "..." else "") ++ ")"

/-- The macro in one line for readers. -/
def display (m : Macro) : String :=
  m.name ++ m.parameterText ", " ++ " -> '" ++ Token.spell m.body ++ "'"

/-- The macro as a definition that can be read again. -/
def spelling (m : Macro) : String :=
  m.name ++ m.parameterText "," ++ "=" ++ Token.spell m.body

/-- The summary of the macro, field by field. -/
def summary (m : Macro) : String :=
  "Macro(name=" ++ Text.quoted m.name ++ ",params=" ++ (m.params?.map Text.quotedList).getD "None" ++ ",body=[" ++
    Text.join ", " (m.body.map Token.summary) ++ "],variadic=" ++ Token.flagText m.isVariadic ++ ")"

/-- The body of a macro that is defined without one. -/
def defaultBody : List Token :=
  [{ value := "1", kind := .numberLiteral }]

/-- A definition: a name, perhaps with parameters, and perhaps an equals sign and the body. -/
def definition : Parse Macro := do
  let (name, params, variadic) ← Parse.macroDefinition
  if ← Parse.atEnd then return ofParts name params variadic defaultBody
  let _ ← Parse.value "="
  return ofParts name params variadic (← Parse.takeRest)

/-- The macro that a definition text such as `NAME`, `NAME=body` or `NAME(params)=body` defines. -/
def ofDefinition (text : String) : Except ParseError Macro :=
  match definition { tokens := Token.ofText text } with
  | .ok m _ => .ok m
  | .error e _ => .error e

end Macro

end Prepass
