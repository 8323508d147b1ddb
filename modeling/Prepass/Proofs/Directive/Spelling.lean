import Mathlib
import Prepass.Proofs.Directive.Keyword
import Prepass.Proofs.Token.Layout

/-!
# The spelling of a directive line

Parsing a directive line looks at the texts and kinds of tokens and at the blanks before them, and not at where they stand: it does the same
with tokens that have no places, and what it gives then is what it gives otherwise, without the places (`Parse.placeless_directiveLine`). The
spelling of a line has the tokens of the line at other places, so it is parsed as the line was (`DirectiveLine.ofText_spelling`).
-/

namespace Prepass

/-! ## Directives without places -/

/-- The target of an include directive without the places of its tokens. -/
def IncludeBody.unplaced : IncludeBody → IncludeBody
  | .path p => .path p
  | .computed tokens => .computed (tokens.map Token.unplaced)

/-- What a directive line says, without the places of its tokens. -/
def Directive.unplaced : Directive → Directive
  | .define name params variadic replacement =>
    .define name.unplaced (params.map (·.map Token.unplaced)) (variadic.map Token.unplaced) (replacement.map Token.unplaced)
  | .undef name => .undef name.unplaced
  | .inclusion body => .inclusion body.unplaced
  | .ifdef name negated => .ifdef name.unplaced negated
  | .ifLine expression => .ifLine (expression.map Token.unplaced)
  | .elifLine expression => .elifLine (expression.map Token.unplaced)
  | .elseLine => .elseLine
  | .endifLine => .endifLine
  | .pragma body => .pragma (body.map Token.unplaced)
  | .error body => .error (body.map Token.unplaced)
  | .warning body => .warning (body.map Token.unplaced)
  | .lineNumber body => .lineNumber (body.map Token.unplaced)
  | .unrecognized => .unrecognized

/-- A directive line without the places of its tokens. -/
def DirectiveLine.unplaced (l : DirectiveLine) : DirectiveLine :=
  ⟨l.tokens.map Token.unplaced, l.directive.unplaced⟩

namespace Cursor

/-- The cursor without the places of its tokens. -/
def unplaced (c : Cursor) : Cursor :=
  { c with tokens := c.tokens.map Token.unplaced }

/-- The token at a cursor that has lost its places is the token at the cursor, without its place. -/
theorem peek?_unplaced (c : Cursor) : c.unplaced.peek? = c.peek?.map Token.unplaced :=
  List.getElem?_map

/-- What is left to read loses its places token by token. -/
theorem rest_unplaced (c : Cursor) : c.unplaced.rest = c.rest.map Token.unplaced :=
  List.map_drop.symm

/-- A cursor is at its end with places or without. -/
theorem atEnd_unplaced (c : Cursor) : c.unplaced.atEnd = c.atEnd := by
  simp [atEnd, unplaced]

end Cursor

/-- Spelling tokens does not look at their places. -/
theorem Token.spell_unplaced (ts : List Token) (spacer : String) : spell (ts.map unplaced) spacer = spell ts spacer := by
  rw [spell, List.map_map]
  rfl

namespace Parse

/-! ## Parsers that do not look at places -/

section

variable {α β : Type}

/-- What parsing comes to, without the places of the tokens; `forget` takes the places out of the value. -/
def withoutPlaces (forget : α → α) : EStateM.Result ParseError Cursor α → EStateM.Result ParseError Cursor α
  | .ok a c => .ok (forget a) c.unplaced
  | .error e c => .error e c.unplaced

/-- The second parser does with tokens that have no places what the first does. -/
def Placeless (forget : α → α) (p p' : Parse α) : Prop :=
  ∀ c, p' c.unplaced = withoutPlaces forget (p c)

namespace Placeless

variable {forget : α → α} {forget' : β → β} {p p' q q' : Parse α} {f f' : α → Parse β}

/-- A value that is given without reading loses its places. -/
theorem pure (a : α) : Placeless forget (Pure.pure a) (Pure.pure (forget a)) :=
  fun _ => rfl

/-- A refusal has no places to lose. -/
theorem throw (e : ParseError) : Placeless forget (throw e) (throw e) :=
  fun _ => rfl

/-- Nothing comes after a refusal, with places or without. -/
theorem throw_bind (e : ParseError) : Placeless forget' (MonadExcept.throw e >>= f) (MonadExcept.throw e >>= f') :=
  fun _ => rfl

/-- Parsers in a row do without places when each of them does. -/
theorem bind (hp : Placeless forget p p') (hf : ∀ a, Placeless forget' (f a) (f' (forget a))) :
    Placeless forget' (p >>= f) (p' >>= f') := by
  intro c
  have hc := hp c
  cases hs : p c with
  | ok a c₁ =>
    rw [hs] at hc
    rw [bind_of_ok hs, bind_of_ok hc]
    exact hf a c₁
  | error e c₁ =>
    rw [hs] at hc
    rw [bind_of_error hs, bind_of_error hc]
    rfl

/-- A choice that does not look at places does without them when both of its branches do. -/
theorem ite {P : Prop} [Decidable P] (hp : Placeless forget p p') (hq : Placeless forget q q') :
    Placeless forget (if P then p else q) (if P then p' else q') := by
  split
  · exact hp
  · exact hq

/-- Asking that all tokens are read does without places. -/
theorem whole (hp : Placeless forget p p') (e : ParseError) : Placeless forget (whole p e) (whole p' e) := by
  intro c
  unfold Parse.whole
  rw [hp c]
  cases p c <;> rfl

/-- Going back after a refusal does without places. -/
theorem optional (hp : Placeless forget p p') : Placeless (Option.map forget) (optional p) (optional p') := by
  intro c
  unfold Parse.optional
  rw [hp c]
  cases p c <;> rfl

end Placeless

end

/-- A token is read without its place when the test does not look at it. -/
theorem placeless_token {test : Token → Bool} (htest : ∀ t, test t.unplaced = test t) (e : ParseError) :
    Placeless Token.unplaced (token test e) (token test e) := by
  intro c
  unfold token
  rw [c.peek?_unplaced]
  cases c.peek? with
  | none => rfl
  | some t =>
    rw [Option.map_some]
    dsimp only
    rw [htest]
    split <;> rfl

/-- A token of a kind is found by its kind alone. -/
theorem placeless_kind (k : Token.Kind) : Placeless Token.unplaced (kind k) (kind k) :=
  placeless_token (fun _ => rfl) _

/-- A token with a value is found by value and kind alone. -/
theorem placeless_value (v : String) (k : Token.Kind) : Placeless Token.unplaced (value v k) (value v k) :=
  placeless_token (fun _ => rfl) _

/-- A keyword is found by its value alone. -/
theorem placeless_keyword (values : List String) : Placeless Token.unplaced (keyword values) (keyword values) :=
  placeless_token (fun _ => rfl) _

theorem placeless_peek : Placeless Token.unplaced peek peek := by
  intro c
  unfold peek
  rw [c.peek?_unplaced]
  cases c.peek? <;> rfl

theorem placeless_atEnd : Placeless id atEnd atEnd := by
  intro c
  unfold atEnd
  rw [c.atEnd_unplaced]
  rfl

/-- The rest of a line is taken up as it is. -/
theorem placeless_takeRest : Placeless (List.map Token.unplaced) takeRest takeRest := by
  intro c
  unfold takeRest
  rw [c.rest_unplaced]
  simp [withoutPlaces, Cursor.toEnd, Cursor.unplaced]

theorem placeless_note (ns : List Notice) : Placeless id (note ns) (note ns) :=
  fun _ => rfl

theorem placeless_get : Placeless Cursor.unplaced get get :=
  fun _ => rfl

/-! ## Definitions -/

/-- The parameters of a macro and the variadic one, without places. -/
def unplacedParameters (found : List Token × Option Token) : List Token × Option Token :=
  (found.1.map Token.unplaced, found.2.map Token.unplaced)

/-- Whether a token is an ellipsis is asked of its value and kind. -/
@[simp]
theorem isEllipsis_unplaced (t : Token) : isEllipsis t.unplaced = isEllipsis t := rfl

@[simp]
theorem unnamedVariadic_unplaced (t : Token) : unnamedVariadic t.unplaced = (unnamedVariadic t).unplaced := rfl

/-- Reading the parameters of a list that has lost its places gives the parameters without their places. -/
theorem parameters_unplaced (params ts : List Token) : parameters (params.map Token.unplaced) (ts.map Token.unplaced) =
    ((parameters params ts).1.map unplacedParameters, (parameters params ts).2) := by
  fun_induction parameters params ts with
  | case1 params => rfl
  | case2 params p rest hellipsis => simp [parameters.eq_def, hellipsis, Except.map, unplacedParameters]
  | case3 params p rest hellipsis hkind => simp [parameters.eq_def, hellipsis, hkind, Except.map]
  | case4 params p hellipsis hkind =>
    have hkind : p.kind = .identifier := by simpa using hkind
    simp [parameters, hellipsis, hkind, Except.map]
  | case5 params p hellipsis hkind t more hlast =>
    have hkind : p.kind = .identifier := by simpa using hkind
    simp [parameters, hellipsis, hkind, hlast, Except.map, unplacedParameters]
  | case6 params p hellipsis hkind t more hlast hclose =>
    have hkind : p.kind = .identifier := by simpa using hkind
    simp [parameters, hellipsis, hkind, hlast, hclose, Except.map, unplacedParameters]
  | case7 params p hellipsis hkind t more hlast hclose hcomma result read hmore ih =>
    have hkind : p.kind = .identifier := by simpa using hkind
    rw [List.map_append, List.map_singleton, hmore] at ih
    simp [parameters, hellipsis, hkind, hlast, hcomma, ih]
  | case8 params p hellipsis hkind t more hlast hclose hcomma =>
    have hkind : p.kind = .identifier := by simpa using hkind
    simp [parameters, hellipsis, hkind, hlast, hclose, hcomma, Except.map]

/-- A list of parameters that is not empty reads the same without places. -/
theorem placeless_someParameters : Placeless unplacedParameters someParameters someParameters := by
  intro c
  have hparameters : parameters [] (c.rest.map Token.unplaced) = _ := parameters_unplaced [] c.rest
  unfold someParameters
  rw [c.rest_unplaced, hparameters]
  rcases parameters [] c.rest with ⟨_ | _, read⟩ <;> rfl

/-- A list of parameters reads the same without places. -/
theorem placeless_parameterList : Placeless unplacedParameters parameterList parameterList :=
  placeless_peek.bind fun _ => .ite (.pure ([], none)) placeless_someParameters

/-- The name of a macro and its parameters, without places. -/
def unplacedDefinition (parts : Token × Option (List Token) × Option Token) : Token × Option (List Token) × Option Token :=
  (parts.1.unplaced, parts.2.1.map (·.map Token.unplaced), parts.2.2.map Token.unplaced)

/-- The name and the parameters of a definition read the same without places. -/
theorem placeless_macroDefinition : Placeless unplacedDefinition macroDefinition macroDefinition := by
  refine (placeless_kind _).bind fun name => placeless_atEnd.bind fun done => ?_
  refine .ite (.pure (name, none, none)) (placeless_peek.bind fun next => ?_)
  refine .ite (.pure (name, none, none)) ?_
  exact (placeless_value _ _).bind fun _ => placeless_parameterList.bind fun found =>
    (placeless_value _ _).bind fun _ => .pure (name, some found.1, found.2)

/-! ## Inclusions -/

theorem placeless_checkPath (path : String) : Placeless id (checkPath path) (checkPath path) :=
  (placeless_note _).bind fun _ => .pure _

/-- What stands between angle brackets is the same without places. -/
theorem placeless_insideAngles : Placeless (List.map Token.unplaced) insideAngles insideAngles := by
  intro c
  have htake : (c.rest.map Token.unplaced).takeWhile (·.value ≠ ">") = (c.rest.takeWhile (·.value ≠ ">")).map Token.unplaced :=
    List.takeWhile_map ..
  unfold insideAngles
  dsimp only
  rw [c.rest_unplaced, htake, List.length_map]
  rfl

/-- A path between angle brackets is the spelling of tokens, and so it has no places. -/
theorem placeless_systemPath : Placeless id systemPath systemPath := by
  refine (placeless_value _ _).bind fun _ => placeless_insideAngles.bind fun inside => (placeless_value _ _).bind fun _ => ?_
  rw [Token.spell_unplaced]
  exact (placeless_checkPath _).bind fun _ => .pure _

/-- A path between quotes is the value of a token, and so it has no places. -/
theorem placeless_localPath : Placeless id localPath localPath :=
  (placeless_kind _).bind fun _ => .ite (.pure none) ((placeless_checkPath _).bind fun _ => .pure _)

/-- A path of an include directive reads the same without places. -/
theorem placeless_includePath : Placeless id includePath includePath := by
  refine Placeless.whole (placeless_systemPath.optional.bind fun found => ?_) _
  rcases found with _ | _ | path
  case some.some => exact .pure path
  -- without a path between angle brackets, one between quotes is tried
  all_goals
    refine placeless_localPath.optional.bind fun found => ?_
    rcases found with _ | _ | path
    · exact .throw _
    · exact .throw _
    · exact .pure path

/-- An include directive reads the same without places. -/
theorem placeless_inclusion : Placeless Directive.unplaced inclusion inclusion := by
  refine Placeless.whole ((placeless_keyword _).bind fun _ => placeless_includePath.optional.bind fun found => ?_) _
  cases found with
  | some path => exact .pure _
  | none =>
    refine placeless_takeRest.bind fun body => ?_
    rw [List.isEmpty_map]
    exact .ite (.throw_bind _) (.pure _)

/-! ## Directive lines -/

/-- The expression of a conditional reads the same without places. -/
theorem placeless_expression : Placeless (List.map Token.unplaced) expression expression := by
  refine placeless_takeRest.bind fun tokens => ?_
  rw [List.isEmpty_map]
  exact .ite (.throw_bind _) (.pure _)

/-- A directive with a message reads the same without places. -/
theorem placeless_message : Placeless Directive.unplaced message message := by
  refine (placeless_keyword _).bind fun name => placeless_takeRest.bind fun body => ?_
  rw [Token.value_unplaced]
  split <;> exact .pure _

/-- No form looks at places. -/
theorem placeless_forms : ∀ form ∈ forms, Placeless Directive.unplaced form form := by
  intro form hform
  simp only [forms, List.mem_cons, List.not_mem_nil, or_false] at hform
  rcases hform with rfl | rfl | rfl | rfl | rfl | rfl | rfl | rfl | rfl
  · refine Placeless.whole ((placeless_keyword _).bind fun _ => placeless_macroDefinition.bind fun parts => ?_) _
    refine placeless_takeRest.bind fun body => ?_
    exact .pure _
  · refine Placeless.whole ((placeless_keyword _).bind fun _ => (placeless_kind _).bind fun name => ?_) _
    exact .pure _
  · exact placeless_inclusion
  · refine Placeless.whole ((placeless_keyword _).bind fun test => (placeless_kind _).bind fun name => ?_) _
    exact .pure _
  · refine Placeless.whole ((placeless_keyword _).bind fun _ => placeless_expression.bind fun tokens => ?_) _
    exact .pure _
  · refine Placeless.whole ((placeless_keyword _).bind fun _ => placeless_expression.bind fun tokens => ?_) _
    exact .pure _
  · refine Placeless.whole ((placeless_keyword _).bind fun _ => ?_) _
    exact .pure _
  · refine Placeless.whole ((placeless_keyword _).bind fun _ => ?_) _
    exact .pure _
  · exact placeless_message

/-- The first form that fits is the same without places when every form does without them. -/
theorem placeless_firstOf {fs : List (Parse Directive)} (hfs : ∀ form ∈ fs, Placeless Directive.unplaced form form) :
    Placeless (Option.map Directive.unplaced) (firstOf fs) (firstOf fs) := by
  induction fs with
  | nil => exact .pure none
  | cons form fs ih =>
    refine (hfs form (by simp)).optional.bind fun found => ?_
    cases found with
    | some d => exact .pure (some d)
    | none => exact ih fun f hf => hfs f (List.mem_cons_of_mem _ hf)

/-- A directive that is not a conditional reads the same without places. -/
theorem placeless_directive : Placeless Directive.unplaced directive directive := by
  refine placeless_atEnd.bind fun done => .ite (.pure _) ?_
  refine (placeless_firstOf placeless_forms).bind fun found => ?_
  cases found with
  | some d =>
    refine placeless_atEnd.bind fun finished => .ite ?_ (.pure d)
    refine placeless_get.bind fun c => ?_
    have hspell : Token.spell c.unplaced.tokens = Token.spell c.tokens := Token.spell_unplaced ..
    rw [hspell]
    refine (placeless_note _).bind fun _ => ?_
    exact .pure _
  | none =>
    exact placeless_peek.bind fun name => .ite (.throw_bind _) (.pure _)

/-- A directive line reads the same without places. -/
theorem placeless_directiveLine : Placeless DirectiveLine.unplaced directiveLine directiveLine := by
  refine (Placeless.whole (placeless_value _ _) _).bind fun _ => placeless_get.bind fun c => ?_
  exact placeless_directive.bind fun d => .pure _

/-- A directive line has the tokens it was parsed from. -/
theorem tokens_of_directiveLine {c c' : Cursor} {l : DirectiveLine} (h : directiveLine c = .ok l c') : l.tokens = c.tokens := by
  obtain ⟨t, c₁, hsign, h⟩ := exists_of_bind_ok h
  have hgives : Gives (fun _ => True) (whole (value "#") .notDirective) := .whole (gives_any_token _ _) _
  have htokens := hgives.tokens_eq c
  rw [hsign] at htokens
  obtain ⟨c₂, c₃, hget, h⟩ := exists_of_bind_ok h
  cases hget
  obtain ⟨d, c₄, -, h⟩ := exists_of_bind_ok h
  cases h
  exact htokens

/-- Tokens that differ in their places only are parsed alike. -/
theorem directiveLine_congr {ts ts' : List Token} (hts : ts'.map Token.unplaced = ts.map Token.unplaced) {l : DirectiveLine} {c : Cursor}
    (h : directiveLine { tokens := ts } = .ok l c) :
    ∃ l' c', directiveLine { tokens := ts' } = .ok l' c' ∧ l'.unplaced = l.unplaced := by
  have hts : ({ tokens := ts' } : Cursor).unplaced = ({ tokens := ts } : Cursor).unplaced := by simp only [Cursor.unplaced, hts]
  have hparsed := placeless_directiveLine { tokens := ts }
  rw [← hts, placeless_directiveLine, h] at hparsed
  cases h' : directiveLine { tokens := ts' } with
  | ok l' c' =>
    rw [h'] at hparsed
    injection hparsed with hline _
    exact ⟨l', c', rfl, hline⟩
  | error e c' =>
    rw [h'] at hparsed
    cases hparsed

end Parse

namespace DirectiveLine

/-- The spelling of a directive line has the tokens of the line, at other places, and is parsed as the line was. -/
theorem ofText_spelling {text uri : String} {line : Int} {l : DirectiveLine} {c : Cursor} (h : ofText text line uri = .ok l c)
    (line' : Int) (uri' : String) :
    (Token.ofText l.spelling line' uri').map Token.unplaced = (Token.ofText text line uri).map Token.unplaced ∧
      ∃ l' c', ofText l.spelling line' uri' = .ok l' c' ∧ l'.unplaced = l.unplaced := by
  have htokens : l.tokens = Token.ofText text line uri := Parse.tokens_of_directiveLine h
  have hlayout : (Token.ofText l.spelling line' uri').map Token.unplaced = (Token.ofText text line uri).map Token.unplaced := by
    rw [spelling, htokens]
    exact Token.ofText_layout ..
  exact ⟨hlayout, Parse.directiveLine_congr hlayout h⟩

/-- A lone quote, with an escaped quote after it and blanks that an escape takes along. -/
def loneQuote : String :=
  "  #  error  don't  \\  \\'\t stop"

/-- The lone quote of an error directive has a backslash before it when it is spelled, and the spelling is read as the same directive. -/
theorem ofText_spelling_loneQuote : ∃ l c, ofText loneQuote = .ok l c ∧ l.spelling = " # error don't \\ \\' stop" ∧
    (Token.ofText l.spelling).map Token.unplaced = (Token.ofText loneQuote).map Token.unplaced ∧
      ∃ l' c', ofText l.spelling = .ok l' c' ∧ l'.unplaced = l.unplaced := by
  have hparsed : (Parse.directiveLine.run' { tokens := Token.ofText loneQuote }).map spelling = some " # error don't \\ \\' stop" := by
    cbv
  obtain ⟨l, c, hc, hspelling⟩ := map_run'_eq_some.mp hparsed
  exact ⟨l, c, hc, hspelling, ofText_spelling hc 1 ""⟩

end DirectiveLine

end Prepass
