import Prepass.Text.Quoted

/-!
# Notices

What the preprocessor has to say while it works. A notice is an event; its level and its wording are functions of it. Work that
gives notices carries them along in order (`Logged`).
-/

namespace Prepass

/-- How much a notice matters. -/
inductive Level where
  | debug
  | warning
  | error
  deriving DecidableEq, Repr

/-- A place in a source: a file and a line of it. -/
structure Place where
  file : String
  line : Int
  deriving DecidableEq, Repr

/-- The place in square brackets, with a colon after it. -/
def Place.label (p : Place) : String :=
  "[" ++ p.file ++ ":" ++ toString p.line ++ "]: "

/-- An event worth telling. -/
inductive Notice where
  | openLiteral
  | continuedAtEnd
  | openCommentAtEnd
  | rejectedPath (culprit : Char) (path : String)
  | extraTokens (line : String)
  | openArguments
  | argumentCount (name : String) (expected got : Nat)
  | tooDeep (head : String) (limit : Int)
  | beginFile (file : String)
  | finishFile (file : Option String)
  | unparsable (text reason : String)
  | conditionFalse (place : Place) (text : String)
  | elseTaken (place : Place)
  | elseSkipped (place : Place)
  | endifReached (place : Place)
  | ifReached (place : Place) (text : String)
  | elifReached (place : Place) (text : String)
  | elifSkipped (place : Place)
  | conditionFailed (place : Place) (text reason : String)
  | defined (place : Place) (spelling : String)
  | undefined (place : Place) (name : String)
  | unresolvedInclude (place : Place) (spelling : String)
  | missingInclude (place : Place) (system : Bool) (path spelling : String)
  | replaced (place : Place) (before after : String)
  | scanning (file : String)
  | unreadable (file reason : String)
  deriving DecidableEq, Repr

namespace Notice

/-- The level of a notice. -/
def level : Notice → Level
  | .continuedAtEnd | .openCommentAtEnd | .extraTokens _ | .tooDeep .. | .unparsable .. | .unresolvedInclude ..
  | .missingInclude .. | .unreadable .. => .warning
  | .conditionFailed .. => .error
  | _ => .debug

/-- A number set flush right in five columns. -/
def flushRight (n : Int) : String :=
  let digits := toString n
  String.ofList (List.replicate (5 - digits.length) ' ') ++ digits

/-- The wording of a notice. -/
def text : Notice → String
  | .openLiteral => "unterminated literal at end of line"
  | .continuedAtEnd => "backslash-newline at end of file"
  | .openCommentAtEnd => "unterminated comment at end of file"
  | .rejectedPath culprit path =>
    "Rejecting path containing " ++ Text.quoted (String.singleton culprit) ++ ": " ++ Text.quoted path
  | .extraTokens line => "Additional tokens at end of directive: " ++ line
  | .openArguments => "reached the end of the stream while matching a macro argument"
  | .argumentCount name expected got =>
    "'" ++ name ++ "' expects " ++ toString expected ++ " argument(s), got " ++ toString got ++ "; leaving it unexpanded."
  | .tooDeep head limit => "Expansion of '" ++ head ++ "' exceeded " ++ toString limit ++ " levels; leaving it unexpanded."
  | .beginFile file => "begin preprocessing '" ++ file ++ "'"
  | .finishFile file => "finished preprocessing '" ++ file.getD "None" ++ "'"
  | .unparsable text reason => "Cannot parse '" ++ text ++ "', ignoring... (" ++ reason ++ ")"
  | .conditionFalse place text => place.label ++ "'" ++ text ++ "' evaluated to false, skipping tokens that follow"
  | .elseTaken place => place.label ++ "#else, returning to non-skipping mode"
  | .elseSkipped place => place.label ++ "skipping tokens inside the #else"
  | .endifReached place => place.label ++ "#endif, returning to non-skipping mode"
  | .ifReached place text => place.label ++ "handling #if line '" ++ text ++ "'"
  | .elifReached place text => place.label ++ "handling #elif line '" ++ text ++ "'"
  | .elifSkipped place => place.label ++ "skipping tokens inside the #elif"
  | .conditionFailed place text reason =>
    place.label ++ "error evaluating the expression '" ++ text ++ "', assuming 'true' ... (" ++ reason ++ ")"
  | .defined place spelling => place.label ++ "storing macro: '" ++ spelling ++ "'"
  | .undefined place name => place.label ++ "removing macro: '" ++ name ++ "'"
  | .unresolvedInclude place spelling =>
    place.file ++ ":" ++ toString place.line ++ ": cannot resolve computed include '" ++ spelling ++ "'"
  | .missingInclude place system path spelling =>
    place.file ++ ":" ++ toString place.line ++ ": " ++ (if system then "system include" else "user include") ++ " '" ++
      path ++ "' not found\n" ++ flushRight place.line ++ " | " ++ spelling
  | .replaced place before after => place.label ++ "replacing '" ++ before ++ "' -> '" ++ after ++ "'"
  | .scanning file => "Preprocessing " ++ file
  | .unreadable file reason => "Could not read " ++ file ++ ": " ++ reason

end Notice

/-- A state and the notices given so far, latest first. -/
structure Logged (σ : Type) where
  state : σ
  latest : List Notice := []
  deriving DecidableEq, Repr

namespace Logged

variable {σ : Type}

/-- The notices given so far, in order. -/
def notices (s : Logged σ) : List Notice :=
  s.latest.reverse

/-- The same state with one more notice. -/
def note (s : Logged σ) (n : Notice) : Logged σ :=
  { s with latest := n :: s.latest }

/-- The same state with several more notices. -/
def noteAll (s : Logged σ) (ns : List Notice) : Logged σ :=
  { s with latest := ns.reverse ++ s.latest }

/-- The notices given so far with another state. -/
def withState {τ : Type} (s : Logged σ) (state : τ) : Logged τ :=
  { state, latest := s.latest }

@[simp]
theorem notices_note (s : Logged σ) (n : Notice) : (s.note n).notices = s.notices ++ [n] := by
  simp [notices, note]

@[simp]
theorem notices_noteAll (s : Logged σ) (ns : List Notice) : (s.noteAll ns).notices = s.notices ++ ns := by
  simp [notices, noteAll]

end Logged

end Prepass
