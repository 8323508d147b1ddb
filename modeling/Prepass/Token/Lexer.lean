import Prepass.Line.Splice
import Prepass.Text.Digit
import Prepass.Token

/-!
# Lexing

The tokens of a text. At each place that is not blank the first recogniser that fits gives the next lexeme: a number, a character
constant, a string constant, an identifier, a punctuator. A recogniser answers with the length of the lexeme it finds at the head
of the text. A character that fits nowhere, such as a quote that is never closed, stands alone as a punctuator, so every
text has tokens.

The logical lines of a source are lexed one by one. A directive line stays whole, as one token; it is parsed when the preprocessor
comes to it. The end mark stands on the last physical line.
-/

namespace Prepass

namespace Lexer

/-- An exponent mark of a number, before its sign. -/
def isExponent (c : Char) : Bool :=
  c = 'e' || c = 'E' || c = 'p' || c = 'P'

/-- A sign. -/
def isSign (c : Char) : Bool :=
  c = '+' || c = '-'

/-- A character that continues a number. -/
def isNumberPart (c : Char) : Bool :=
  Text.isAlphanumeric c || c = '_' || c = '.'

/-- The length of the longest continuation of a number: exponents with their sign, letters, digits, underscores and periods. -/
def numberTail : List Char → Nat
  | [] => 0
  | [c] => if isNumberPart c then 1 else 0
  | c :: d :: rest =>
    if isExponent c && isSign d then numberTail rest + 2
    else if isNumberPart c then numberTail (d :: rest) + 1
    else 0

/-- The number at the head of a text: a digit, perhaps after a period, and what continues it. -/
def number? : List Char → Option Nat
  | '.' :: d :: rest => if Text.isDigit d then some (numberTail rest + 2) else none
  | d :: rest => if Text.isDigit d then some (numberTail rest + 1) else none
  | [] => none

/-- The length of a literal after its opening quote, the closing quote included. A backslash takes the character after it along. -/
def literalTail? (quote : Char) : List Char → Option Nat
  | [] => none
  | c :: rest =>
    if c = quote then some 1
    else if c = '\\' then
      match rest with
      | [] => none
      | _ :: more => (literalTail? quote more).map (· + 2)
    else (literalTail? quote rest).map (· + 1)

/-- The length of the mark in front of a literal: the first of `marks` that a quote follows, or nothing. -/
def markLength (quote : Char) (marks : List (List Char)) (cs : List Char) : Nat :=
  ((marks.find? fun mark => (mark ++ [quote]).isPrefixOf cs).map List.length).getD 0

/-- The literal at the head of a text, with an optional mark in front of it. -/
def literal? (quote : Char) (marks : List (List Char)) (cs : List Char) : Option Nat :=
  let mark := markLength quote marks cs
  match cs.drop mark with
  | c :: rest => if c = quote then (literalTail? quote rest).map (· + (mark + 1)) else none
  | [] => none

/-- The marks of character constants. -/
def characterMarks : List (List Char) :=
  [['u', '8'], ['L'], ['u'], ['U']]

/-- The marks of string constants; the at sign marks an Objective-C string. -/
def stringMarks : List (List Char) :=
  [['u', '8'], ['@'], ['L'], ['u'], ['U']]

/-- A character that begins an identifier. -/
def isIdentifierStart (c : Char) : Bool :=
  Text.isLetter c || c = '_' || c = '$'

/-- A character that continues an identifier. -/
def isIdentifierPart (c : Char) : Bool :=
  Text.isAlphanumeric c || c = '_' || c = '$'

/-- The identifier at the head of a text. -/
def identifier? : List Char → Option Nat
  | [] => none
  | c :: rest => if isIdentifierStart c then some ((rest.takeWhile isIdentifierPart).length + 1) else none

/-- The punctuators of more than one character, longest first. -/
def longPunctuators : List (List Char) :=
  [['.', '.', '.'], ['<', '<', '='], ['>', '>', '='], ['-', '>', '*'],
   ['-', '>'], ['+', '+'], ['-', '-'], ['<', '<'], ['>', '>'], ['<', '='], ['>', '='], ['=', '='], ['!', '='],
   ['&', '&'], ['|', '|'], ['+', '='], ['-', '='], ['*', '='], ['/', '='], ['%', '='], ['&', '='], ['|', '='],
   ['^', '='], [':', ':'], ['.', '*'], ['#', '#']]

/-- The length of the punctuator at the head of a text; a character that begins no longer one stands alone. -/
def punctuatorLength (cs : List Char) : Nat :=
  ((longPunctuators.find? (·.isPrefixOf cs)).map List.length).getD 1

/-- The kind and the length of the lexeme at the head of a text. -/
def lexeme (cs : List Char) : Token.Kind × Nat :=
  match number? cs with
  | some n => (.numberLiteral, n)
  | none =>
    match literal? Text.apostrophe characterMarks cs with
    | some n => (.characterLiteral, n)
    | none =>
      match literal? '"' stringMarks cs with
      | some n => (.stringLiteral, n)
      | none =>
        match identifier? cs with
        | some n => (.identifier, n)
        | none => (.punctuator, punctuatorLength cs)

/-- The tokens of the text at a column; `spaced` tells whether a blank stands right before it. -/
def scan (line : Int) (uri : String) (column : Int) (spaced : Bool) : List Char → List Token
  | [] => []
  | c :: rest =>
    if Text.isBlank c then scan line uri (column + 1) true rest
    else
      let (kind, length) := lexeme (c :: rest)
      { value := String.ofList ((c :: rest).take length), kind, line, column, uri, spaced } ::
        scan line uri (column + length) false (rest.drop (length - 1))
termination_by cs => cs.length
decreasing_by
  · simp
  · simp only [List.length_drop, List.length_cons]; omega

end Lexer

/-- The tokens of a text. -/
def Token.ofText (text : String) (line : Int := 1) (uri : String := "") (column : Int := 0) : List Token :=
  Lexer.scan line uri column false text.toList

/-- The tokens of a text and the end mark. -/
def Token.ofTextToEnd (text : String) (line : Int := 1) (uri : String := "") : List Token :=
  Token.ofText text line uri ++ [{ value := "", kind := .eof, line, column := text.length, uri }]

/-! ## Sources -/

/-- The tokens of one logical line. -/
def Token.ofLogicalLine (uri : String) (l : LogicalLine) : List Token :=
  if l.category = .directive then
    [{ value := String.ofList (Text.trim l.body), kind := .directive, line := l.startLine,
       column := (l.body.takeWhile Text.isBlank).length, uri }]
  else Token.ofText l.text l.startLine uri

/-- The tokens of the physical lines of a source, with the notices that reading the lines gives. -/
def Token.ofLines (lines : List (List Char)) (uri : String := "") : Logged (List Token) :=
  let source := Splice.ofLines lines
  { state := source.finished.flatMap (Token.ofLogicalLine uri) ++
      [{ value := "", kind := .eof, line := max source.total 1, column := 0, uri }]
    latest := source.latest }

/-- The tokens of the text of a source. -/
def Token.ofSource (text : String) (uri : String := "") : Logged (List Token) :=
  Token.ofLines (physicalLines text.toList) uri

end Prepass
