import Prepass.Session.Condition
import Prepass.Session.Inclusion
import Prepass.Token.Lexer

/-!
# Preprocessing

A session goes through the tokens of a source. At each place it keeps the token, or takes up some tokens and puts others in their
stead: a directive and a token that is skipped leave nothing, and a macro invocation leaves its expansion.
-/

namespace Prepass

/-- What becomes of the token at a place: it is kept, or it and so many tokens beyond it are replaced. -/
inductive Action where
  | keep
  | replace (beyond : Nat) (skipped injected : List Token)
  deriving DecidableEq, Repr

namespace SessionM

/-- Carries out a directive line that is no conditional. -/
def carryOut (files : FileAccess) (l : DirectiveLine) (place : Place) : SessionM Unit := do
  match l.directive with
  | .define name params variadic body =>
    let m := Macro.ofParts name params variadic body
    note (.defined place m.spelling)
    update (Session.mapTable (·.define m))
  | .inclusion body => handleInclude files l body place
  | .undef name =>
    note (.undefined place name.value)
    update (Session.mapTable (·.undefine name.value))
  | _ => return

/-- Carries out a directive line. While tokens are skipped, only conditionals count. -/
def handleLine (files : FileAccess) (l : DirectiveLine) (t : Token) (place : Place) : SessionM Unit := do
  match l.directive with
  | .ifdef name negated => handleIfdef name negated t place
  | .elseLine => handleElse place
  | .endifLine => handleEndif place
  | .elifLine expression => handleElif expression t place
  | .ifLine expression => handleIf expression t place
  | _ =>
    if (← current).conditional.skipping then return
    carryOut files l place

/-- Carries out a directive token. One that cannot be parsed is told and passed over. -/
def handleDirective (files : FileAccess) (t : Token) (place : Place) : SessionM Unit := do
  match ← parse Parse.directiveLine (Token.ofText t.value t.line t.uri) with
  | .ok l => handleLine files l t place
  | .error e =>
    note (.unparsable t.value e.message)
    handleMalformed t

/-- Replaces the macro invocation at a place, if there is one. -/
def handleName (tokens : List Token) (start : Nat) (place : Place) : SessionM Action := do
  match ← expand (Expand.head tokens start) with
  | none => return .keep
  | some e =>
    let skipped := (tokens.drop start).take e.consumed
    note (.replaced place (Token.spell skipped) (Token.spell e.tokens))
    return .replace e.beyond skipped e.tokens

/-- What becomes of the token at a place. -/
def processAt (files : FileAccess) (tokens : List Token) (start : Nat) : SessionM Action := do
  match tokens[start]? with
  | none => return .keep
  | some t =>
    let s ← current
    let place : Place := { file := s.fileName t, line := t.line }
    match t.kind with
    | .directive =>
      handleDirective files t place
      return .replace 0 [t] []
    | .eof => return .keep
    | .stringLiteral | .numberLiteral => return if s.conditional.skipping then .replace 0 [t] [] else .keep
    | _ =>
      if s.conditional.skipping then return .replace 0 [t] []
      handleName tokens start place

/-- What becomes of the first of some tokens. -/
def process (files : FileAccess) (window : List Token) : SessionM Action :=
  processAt files window 0

/-- The tokens that a source leaves, after those in `out`, which are latest first. -/
def preprocessFrom (files : FileAccess) (out : List Token) : List Token → SessionM (List Token)
  | [] => return out.reverse
  | t :: rest => do
    match ← process files (t :: rest) with
    | .keep => preprocessFrom files (t :: out) rest
    | .replace beyond _ injected => preprocessFrom files (injected.reverse ++ out) (rest.drop beyond)
termination_by tokens => tokens.length
decreasing_by
  · simp
  · simp only [List.length_drop, List.length_cons]; omega

/-- The tokens that a source leaves: directives are carried out, skipped tokens are dropped, and macros are expanded. -/
def preprocess (files : FileAccess) (tokens : List Token) : SessionM (List Token) :=
  preprocessFrom files [] tokens

/-- Gives several notices. -/
def noteAll (ns : List Notice) : SessionM Unit := fun s =>
  .ok () (s.noteAll ns)

/-- Preprocesses a text as the content of a file. -/
def preprocessText (files : FileAccess) (text : String) (uri : String := "") : SessionM (List Token) := do
  if (← current).currentFile.isNone then begin uri
  let source := Token.ofSource text uri
  noteAll source.notices
  preprocess files source.state

/-- The text of a file in the encoding of the session, with line feeds for all line ends. A null character in the name of the encoding
is found before the file is opened, an unknown name after that. -/
def readText (files : FileAccess) (file : String) : SessionM (List Char) := do
  let name := (← current).settings.encoding
  if Char.ofNat 0 ∈ name.toList then throw .nullInEncoding
  match files.contents file with
  | .error e => throw (.file e)
  | .ok bytes =>
    match files.decode name bytes with
    | none => throw .unknownEncoding
    | some text => return Text.unifyLineEnds text

/-- Preprocesses a file. -/
def preprocessFile (files : FileAccess) (file : String) : SessionM (List Token) := do
  begin file
  let source := Token.ofLines (physicalLines (← readText files file)) file
  noteAll source.notices
  preprocess files source.state

end SessionM

end Prepass
