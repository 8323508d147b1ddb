import Prepass.Token

/-!
# Why tokens cannot be read

The causes for which a directive, a definition, a constant or an expression is refused, and their wording. Those of expressions
as a whole are told apart, because a caller may treat them as a condition that could not be decided.
-/

namespace Prepass

/-- Why tokens are refused. -/
inductive ParseError where
  | noTokens
  | expectedKind (kind : Token.Kind)
  | expectedValue (value : String)
  | expectedOneOf (values : List String)
  | invalidDirective (keyword : String)
  | notDirective
  | invalidPath
  | missingBody
  | invalidCall
  | notInteger (text : String)
  | emptyCharacter
  | invalidCharacter (text : String)
  | expectedTerm
  | divisionByZero
  | notEvaluated (cause : ParseError)
  | unexpectedTokens (rest : String)
  | definedNeedsName
  deriving DecidableEq, Repr

namespace ParseError

/-- The wording of a cause. -/
def message : ParseError → String
  | .noTokens => "No tokens left for cursor to traverse"
  | .expectedKind kind => "Expected " ++ kind.label ++ "."
  | .expectedValue value => "Expected " ++ value ++ "."
  | .expectedOneOf values => "Expected one of " ++ Text.quotedTuple values ++ "."
  | .invalidDirective keyword => "Invalid " ++ keyword ++ " directive."
  | .notDirective => "Not a directive."
  | .invalidPath => "Invalid path."
  | .missingBody => "Missing include body."
  | .invalidCall => "Invalid function call."
  | .notInteger text => "Not an integer constant: " ++ text
  | .emptyCharacter => "Empty character constant."
  | .invalidCharacter text => "Invalid character constant: " ++ text
  | .expectedTerm => "Expected integer constant, character constant, identifier or function call."
  | .divisionByZero => "Division by zero."
  | .notEvaluated cause => "Could not evaluate expression: " ++ cause.message
  | .unexpectedTokens rest => "Unexpected tokens in expression: " ++ rest
  | .definedNeedsName => "Expected identifier after 'defined'"

/-- Whether the cause is that an expression could not be evaluated. -/
def isEvaluation : ParseError → Bool
  | .divisionByZero | .notEvaluated _ | .unexpectedTokens _ | .definedNeedsName => true
  | _ => false

end ParseError

end Prepass
