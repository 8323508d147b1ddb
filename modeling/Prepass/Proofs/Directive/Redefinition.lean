import Mathlib
import Prepass.Proofs.Directive.Parameters

/-!
# Macros spelled as definitions

A macro of a directive line is spelled as a definition text: its name, its parameters, an equals sign and its body. Its name and its parameters
are names (`Parse.named_directiveLine`), so each of them is lexed again before whatever the spelling puts next, and parsing takes them
apart again (`Macro.yields_macroDefinition`). What remains is the equals sign right before the body. Unless the body begins with an
equals sign too, the spelling defines the same macro; otherwise the two signs are read as one, and the spelling is refused
(`Macro.ofDefinition_spelling`).
-/

namespace Prepass

namespace Parse

/-! ## Names in directive lines -/

/-- A token that is read has passed the test and is lexed. -/
theorem reads_token (test : Token → Bool) (e : ParseError) : Reads (fun t => test t = true ∧ t.Lexed) (token test e) := by
  refine ⟨fun hlexed h => ?_, fun _ => (gives_token test e).tokens_eq _⟩
  obtain ⟨htest, hrest⟩ := rest_of_token h
  exact ⟨htest, hlexed _ (List.mem_of_mem_drop (hrest ▸ List.mem_cons_self))⟩

/-- The name of a macro and its parameters are names, and only a function-like macro has a variadic parameter. -/
def NamedParts (parts : Token × Option (List Token) × Option Token) : Prop :=
  parts.1.Name ∧ (∀ names, parts.2.1 = some names → ∀ p ∈ names, p.Name) ∧ (∀ p, parts.2.2 = some p → p.Name) ∧
    (parts.2.1 = none → parts.2.2 = none)

/-- The name and the parameters of a definition are names. -/
theorem named_macroDefinition : Reads NamedParts macroDefinition := by
  refine (reads_token _ _).bind fun name hname => gives_atEnd.reads.bind fun done _ => ?_
  have hname : name.Name := ⟨by simpa using hname.1, hname.2⟩
  have hobject : Reads NamedParts (pure (name, none, none)) := .pure ⟨hname, by simp, by simp, by simp⟩
  split
  · exact hobject
  · refine gives_peek.reads.bind fun next _ => ?_
    split
    · exact hobject
    · refine (gives_any_token _ _).reads.bind fun _ _ => reads_parameterList.bind fun params hparams => ?_
      refine (gives_any_token _ _).reads.bind fun _ _ => .pure ⟨hname, ?_, hparams.2, by simp⟩
      rintro names ⟨⟩
      exact hparams.1

/-- A directive that, if it is a definition, has a name and parameters that are names. -/
def NamedDirective : Directive → Prop
  | .define name params variadic _ => NamedParts (name, params, variadic)
  | _ => True

/-- No form of a directive gives a definition with other names than these. -/
theorem named_forms : ∀ form ∈ forms, Reads NamedDirective form := by
  have hkeyword (values : List String) : Reads (fun _ => True) (keyword values) := (gives_any_token _ _).reads
  intro form hform
  simp only [forms, List.mem_cons, List.not_mem_nil, or_false] at hform
  rcases hform with rfl | rfl | rfl | rfl | rfl | rfl | rfl | rfl | rfl
  · refine Reads.whole ((hkeyword _).bind fun _ _ => named_macroDefinition.bind fun parts hparts => ?_) _
    exact gives_takeRest.reads.bind fun body _ => .pure hparts
  · exact Reads.whole ((hkeyword _).bind fun _ _ => (gives_any_token _ _).reads.bind fun _ _ => .pure trivial) _
  · refine Reads.whole ((hkeyword _).bind fun _ _ => gives_includePath.optional.reads.bind fun found _ => ?_) _
    cases found with
    | some path => exact .pure trivial
    | none =>
      refine gives_takeRest.reads.bind fun body _ => ?_
      split
      · exact (Gives.throw _).reads.bind fun (_ : PUnit) (_ : True) => .pure trivial
      · exact .pure trivial
  · exact Reads.whole ((hkeyword _).bind fun _ _ => (gives_any_token _ _).reads.bind fun _ _ => .pure trivial) _
  · exact Reads.whole ((hkeyword _).bind fun _ _ => gives_expression.reads.bind fun _ _ => .pure trivial) _
  · exact Reads.whole ((hkeyword _).bind fun _ _ => gives_expression.reads.bind fun _ _ => .pure trivial) _
  · exact Reads.whole ((hkeyword _).bind fun _ _ => .pure trivial) _
  · exact Reads.whole ((hkeyword _).bind fun _ _ => .pure trivial) _
  · refine (hkeyword _).bind fun _ _ => gives_takeRest.reads.bind fun body _ => .pure ?_
    split <;> trivial

/-- The names in a directive line of lexed tokens are names. -/
theorem named_directiveLine : Reads (fun l => NamedDirective l.directive) directiveLine :=
  reads_directiveLine_of named_forms trivial

end Parse

/-! ## Spelled macros -/

namespace Macro

/-- A macro whose name and parameters are texts of identifiers. -/
def Named (m : Macro) : Prop :=
  Lexer.IsIdentifier m.name.toList ∧ ∀ params, m.params? = some params → ∀ p ∈ params, Lexer.IsIdentifier p.toList

/-- A macro that is made of names has names. -/
theorem named_ofParts {name : Token} {params : Option (List Token)} {variadic : Option Token} (h : Parse.NamedParts (name, params, variadic))
    (body : List Token) : (ofParts name params variadic body).Named := by
  obtain ⟨hname, hparams, hvariadic, hobject⟩ := h
  refine ⟨hname.isIdentifier, ?_⟩
  cases params with
  | none =>
    cases (hobject rfl : variadic = none)
    exact fun _ h => by cases h
  | some names =>
    have hvalues : ∀ p ∈ (names ++ variadic.toList).map Token.value, Lexer.IsIdentifier p.toList := by
      intro p hp
      obtain ⟨t, ht, rfl⟩ := List.mem_map.mp hp
      rcases List.mem_append.mp ht with ht | ht
      · exact (hparams names rfl t ht).isIdentifier
      · exact (hvariadic t (by simpa using ht)).isIdentifier
    rintro found hfound
    cases variadic with
    | none =>
      cases hfound
      simpa using hvalues
    | some last =>
      cases hfound
      simpa using hvalues

/-- A macro is made of its parts again. -/
theorem ofParts_eq {m : Macro} {t : Token} (ht : t.value = m.name) {names : List String} (hnames : m.params? = some names)
    {found : List Token} {last : Option Token} (hvalues : (found ++ last.toList).map Token.value = names) (hlast : last.isSome = m.isVariadic)
    (body : List Token) : ofParts t (some found) last body = { m with body } := by
  obtain ⟨name, shape, _⟩ := m
  subst ht
  cases shape with
  | object => cases hnames
  | function params =>
    cases hnames
    cases last with
    | none => simpa [ofParts] using hvalues
    | some u => cases hlast
  | variadic params l =>
    cases last with
    | none => cases hlast
    | some u =>
      rw [params?, ← hvalues, Option.some_inj, List.map_append] at hnames
      obtain ⟨hparams, hu⟩ := List.append_inj' hnames rfl
      obtain rfl : l = u.value := by simpa using hu
      rw [ofParts, hparams]
      rfl

/-- The first token of a text that begins with an equals sign is no parenthesis. -/
theorem exists_of_scan_equals (column : Int) (text : List Char) :
    ∃ next rest, Lexer.scan 1 "" column false ('=' :: text) = next :: rest ∧ next.value ≠ "(" := by
  obtain ⟨v, tail, kind, htext, hstarts⟩ := Lexer.exists_starts (c := '=') (by decide) text
  rw [htext, hstarts.scan_eq]
  refine ⟨_, _, rfl, fun hvalue => ?_⟩
  have hv : v = ['('] := String.ofList_inj.mp hvalue
  rw [hv] at htext
  cases htext

/-- What comes after some texts is written together with the last of them. -/
theorem join_concat_append (spacer : String) (texts : List String) (text more : String) :
    Text.join spacer (texts ++ [text]) ++ more = Text.join spacer (texts ++ [text ++ more]) := by
  induction texts with
  | nil => rfl
  | cons first texts ih =>
    have hjoin (last : String) : Text.join spacer (first :: (texts ++ [last])) = first ++ spacer ++ Text.join spacer (texts ++ [last]) := by
      cases texts <;> rfl
    rw [List.cons_append, List.cons_append, hjoin, hjoin, ← ih, String.append_assoc]

/-- The parameters of a function-like macro are spelled as a parameter list between parentheses. -/
theorem exists_parameterText {m : Macro} {names : List String} (h : m.params? = some names) : ∃ (params : List String) (ending : Parse.Ending),
    names = params ++ ending.name?.toList ∧ m.isVariadic = ending.name?.isSome ∧ (∀ v, ending = .named v → v ∈ names) ∧
      m.parameterText "," = "(" ++ Text.join "," (params ++ ending.items) ++ ")" := by
  obtain ⟨name, shape, body⟩ := m
  cases shape with
  | object => cases h
  | function params =>
    cases h
    refine ⟨names, .plain, (List.append_nil names).symm, rfl, nofun, ?_⟩
    simp [parameterText, params?, isVariadic, Parse.Ending.items]
  | variadic params last =>
    cases h
    refine ⟨params, .named last, rfl, rfl, by simp, ?_⟩
    rw [Parse.Ending.items, ← join_concat_append]
    simp [parameterText, params?, isVariadic, String.append_assoc]

/-- The name and the parameters of a spelled macro are parsed as they were, and the equals sign is next. -/
theorem yields_macroDefinition {m : Macro} (h : m.Named) (text : List Char) : ∃ parts left,
    Parse.Yields Parse.macroDefinition (Lexer.scan 1 "" 0 false (m.name.toList ++ ((m.parameterText ",").toList ++ '=' :: text)))
      (.ok (parts, left)) ∧ (∀ body, ofParts parts.1 parts.2.1 parts.2.2 body = { m with body }) ∧
    left.map Token.content = (Lexer.scan 1 "" 0 false ('=' :: text)).map Token.content := by
  obtain ⟨hname, hparams⟩ := h
  cases hfound : m.params? with
  | none =>
    have hshape : m.shape = .object := by
      unfold params? at hfound
      split at hfound
      · assumption
      · cases hfound
      · cases hfound
    have htext : m.name.toList ++ ((m.parameterText ",").toList ++ '=' :: text) = m.name.toList ++ '=' :: text := by
      rw [parameterText, hfound]
      rfl
    have hstarts : Lexer.Starts m.name.toList ('=' :: text) .identifier := hname.starts (by rintro _ ⟨⟩; decide)
    rw [htext, hstarts.scan_eq]
    obtain ⟨next, rest, hnext, hvalue⟩ := exists_of_scan_equals (0 + m.name.toList.length) text
    rw [hnext]
    refine ⟨_, _, Parse.yields_macroDefinition_object rfl ?_, fun body => ?_, ?_⟩
    · rintro _ ⟨⟩
      exact .inl hvalue
    · rw [ofParts, ← hshape, String.ofList_toList]
    · rw [← hnext]
      exact Lexer.scan_place ..
  | some names =>
    obtain ⟨params, ending, rfl, hvariadic, hmem, hparameterText⟩ := exists_parameterText hfound
    have hnames := List.forall_mem_append.mp (hparams _ hfound)
    have htext : m.name.toList ++ ((m.parameterText ",").toList ++ '=' :: text) = m.name.toList ++ (['('] ++
        ((Text.join "," (params ++ ending.items)).toList ++ ')' :: '=' :: text)) := by
      rw [hparameterText]
      simp
    have hspacer : ",".toList = [','] := rfl
    have hending (v : String) (hv : ending = .named v) : Lexer.IsIdentifier v.toList := hparams _ hfound v (hmem v hv)
    have hcontents := Parse.content_scan_list hspacer (by simp) hnames.1 hending ('=' :: text)
    generalize (Text.join "," (params ++ ending.items)).toList ++ ')' :: '=' :: text = inside at htext hcontents
    have hname : Lexer.Starts m.name.toList (['('] ++ inside) .identifier := hname.starts (by rintro _ ⟨⟩; decide)
    have hopening : Lexer.Starts ['('] inside .punctuator := Lexer.starts_separator (by decide) inside
    rw [htext, hname.scan_eq, hopening.scan_eq]
    have hplace := Lexer.scan_place 1 1 (0 + m.name.toList.length + ['('].length) 0 "" "" false false inside
    obtain ⟨found, last, left, hlist, hvalues, hlast, hleft⟩ :=
      Parse.yields_parameterList_of_contents (Token.lexed_of_scan hplace) (hplace.trans hcontents)
    obtain ⟨close, left, rfl, hclose, hleft⟩ := List.map_eq_cons_iff.mp hleft
    refine ⟨_, left, Parse.yields_macroDefinition_function rfl rfl rfl hclose hlist, fun body => ?_, hleft⟩
    refine ofParts_eq String.ofList_toList hfound ?_ ?_ body
    · rw [List.map_append, hvalues, ← hlast, Option.toList_map]
    · rw [hvariadic, ← hlast, Option.isSome_map]

/-- What parsing a definition text comes to. -/
theorem ofDefinition_of_yields {text : String} {r : Except ParseError (Macro × List Token)}
    (h : Parse.Yields definition (Token.ofText text) r) : ofDefinition text = r.map Prod.fst := by
  rw [← h { tokens := Token.ofText text } rfl, ofDefinition]
  cases definition { tokens := Token.ofText text } <;> rfl

/-- After the name and the parameters, an equals sign begins the body. -/
theorem yields_definition {parts : Token × Option (List Token) × Option Token} {ts body : List Token} {equals : Token}
    (h : Parse.Yields Parse.macroDefinition ts (.ok (parts, equals :: body))) (hequals : equals.content = ("=", .punctuator)) :
    Parse.Yields definition ts (.ok (ofParts parts.1 parts.2.1 parts.2.2 body, [])) := by
  obtain ⟨hvalue, hkind⟩ : equals.value = "=" ∧ equals.kind = .punctuator := Prod.mk.inj hequals
  refine h.bind ((Parse.yields_atEnd _).bind ?_)
  refine (Parse.yields_token (by simp [hvalue, hkind]) _ _).bind ((Parse.yields_takeRest body).bind ?_)
  exact Parse.yields_pure _ _

/-- Where something else stands in its place, the definition is refused. -/
theorem yields_definition_error {parts : Token × Option (List Token) × Option Token} {ts rest : List Token} {next : Token}
    (h : Parse.Yields Parse.macroDefinition ts (.ok (parts, next :: rest))) (hnext : next.value ≠ "=") :
    Parse.Yields definition ts (.error (.expectedValue "=")) := by
  refine h.bind ((Parse.yields_atEnd _).bind ?_)
  exact (Parse.yields_token_error (by simp [hnext]) _ _).bind_error

end Macro

/-- A lexeme that begins with an equals sign is one or two of them. -/
theorem Lexer.Starts.equals {v tail : List Char} {kind : Token.Kind} (h : Starts ('=' :: v) tail kind) : v = [] ∨ v = ['='] := by
  have hlong : ∀ p ∈ longPunctuators, p.head? = some '=' → p = ['=', '='] := by decide
  have hkind : (lexeme ('=' :: (v ++ tail))).1 = .punctuator := lexeme_kind _ (by decide) (by decide)
  have hfinds := h.finds
  rw [List.cons_append] at hfinds
  rw [hfinds.lexeme_eq] at hkind
  cases (hkind : kind = .punctuator)
  generalize hn : ('=' :: v).length = n at hfinds
  cases hfinds with
  | punctuator =>
    rcases (punctuator_in_text (List.cons_ne_nil '=' (v ++ tail))).2.2 with hmem | hone
    · rw [← hn, ← List.cons_append, List.take_left] at hmem
      exact .inr (List.cons.inj (hlong _ hmem rfl)).2
    · rw [hone] at hn
      exact .inl (List.length_eq_zero_iff.mp (Nat.succ.inj hn))

/-- A spelling begins with an equals sign just when its first token does. -/
theorem Token.head?_spell_equals {ts : List Token} (h : ∀ t ∈ ts, t.Lexed) :
    (spell ts).toList.head? = some '=' ↔ ∃ t ∈ ts.head?, t.value ∈ ["=", "=="] := by
  cases ts with
  | nil => simp [spell, Text.join]
  | cons t rest =>
    obtain ⟨tail, hstarts⟩ := (h t List.mem_cons_self).exists_starts
    obtain ⟨c, v, hv⟩ := List.exists_cons_of_ne_nil hstarts.ne_nil
    obtain ⟨more, hspell⟩ := exists_toList_spell t rest
    rw [hspell, hv, List.cons_append, List.head?_cons, Option.some_inj]
    constructor
    · rintro rfl
      rw [hv] at hstarts
      refine ⟨t, rfl, ?_⟩
      rw [← String.ofList_toList (s := t.value), hv]
      rcases hstarts.equals with rfl | rfl
      · exact List.mem_cons_self
      · exact List.mem_cons_of_mem _ List.mem_cons_self
    · rintro ⟨_, ⟨⟩, hvalue⟩
      simp only [List.mem_cons, List.not_mem_nil, or_false] at hvalue
      rcases hvalue with hvalue | hvalue
      · rw [hvalue] at hv
        exact (List.cons.inj hv).1.symm
      · rw [hvalue] at hv
        exact (List.cons.inj hv).1.symm

namespace Macro

/-- A macro with names that are identifiers and a lexed body without quotes that stand alone is spelled as a definition of it, unless its
body begins with an equals sign. -/
theorem ofDefinition_spelling_of_named {m : Macro} (hnamed : m.Named) (hbody : ∀ t ∈ m.body, t.Lexed ∧ ¬t.LoneQuote) :
    ((∀ t ∈ m.body.head?, t.value ∉ ["=", "=="]) → ∃ m', ofDefinition m.spelling = .ok m' ∧ m'.name = m.name ∧ m'.shape = m.shape ∧
      SaySame m'.body m.body) ∧
    ((∃ t ∈ m.body.head?, t.value ∈ ["=", "=="]) → ofDefinition m.spelling = .error (.expectedValue "=")) := by
  have htext : m.spelling.toList = m.name.toList ++ ((m.parameterText ",").toList ++ '=' :: (Token.spell m.body).toList) := by
    simp [spelling]
  obtain ⟨parts, left, hparts, hmade, hleft⟩ := yields_macroDefinition hnamed (Token.spell m.body).toList
  rw [← htext] at hparts
  have hhead := Token.head?_spell_equals fun t ht => (hbody t ht).1
  constructor
  · intro hplain
    have htail : ∀ c ∈ (Token.spell m.body).toList.head?, c ≠ '=' := by
      rintro c hc rfl
      obtain ⟨t, ht, hvalue⟩ := hhead.mp hc
      exact hplain t ht hvalue
    have hequals := (Lexer.starts_equals htail).content_scan
    rw [List.singleton_append] at hequals
    rw [hequals] at hleft
    obtain ⟨equals, body, rfl, hcontent, hrest⟩ := List.map_eq_cons_iff.mp hleft
    have hdefinition := ofDefinition_of_yields (yields_definition hparts hcontent)
    rw [hmade] at hdefinition
    exact ⟨_, hdefinition, rfl, rfl, hrest.trans (Token.saySame_ofText_spell hbody).map_eq⟩
  · intro hopen
    obtain ⟨more, hmore⟩ := List.head?_eq_some_iff.mp (hhead.mpr hopen)
    rw [hmore, show '=' :: '=' :: more = ['=', '='] ++ more from rfl, (Lexer.starts_twoEquals more).content_scan] at hleft
    obtain ⟨next, rest, rfl, hcontent, -⟩ := List.map_eq_cons_iff.mp hleft
    have hvalue : next.value = "==" := congrArg Prod.fst hcontent
    exact ofDefinition_of_yields (yields_definition_error hparts (by rw [hvalue]; decide))

/-- A macro of a directive line, without quotes that stand alone in its body, is spelled as a definition of the same macro: it has the same
name and the same parameters, and its body has the same tokens. A body that begins with an equals sign is the exception: there the
spelling is refused. -/
theorem ofDefinition_spelling {text uri : String} {number : Int} {l : DirectiveLine} {c : Cursor}
    (h : DirectiveLine.ofText text number uri = .ok l c) {name : Token} {params : Option (List Token)} {variadic : Option Token}
    {body : List Token} (hdirective : l.directive = .define name params variadic body) (hlone : ∀ t ∈ body, ¬t.LoneQuote) :
    ((∀ t ∈ body.head?, t.value ∉ ["=", "=="]) →
      ∃ m, ofDefinition (ofParts name params variadic body).spelling = .ok m ∧ m.name = (ofParts name params variadic body).name ∧
        m.shape = (ofParts name params variadic body).shape ∧ SaySame m.body body) ∧
    ((∃ t ∈ body.head?, t.value ∈ ["=", "=="]) →
      ofDefinition (ofParts name params variadic body).spelling = .error (.expectedValue "=")) := by
  have hnames := Parse.named_directiveLine.value_of (fun t => Token.lexed_of_mem) h
  rw [hdirective] at hnames
  have hlexed := (Written.line h hdirective).lexed
  exact ofDefinition_spelling_of_named (named_ofParts hnames body) fun t ht => ⟨hlexed t ht, hlone t ht⟩

/-- A definition with a variadic parameter that has no name, and an equals sign inside its body. -/
def unnamedLast : String :=
  "#define F(a, ...) a == __VA_ARGS__"

/-- The definition with the unnamed parameter is spelled with a name for it, and that spelling is read as the same macro. -/
theorem ofDefinition_spelling_unnamedLast : ∃ l c name params variadic body, DirectiveLine.ofText unnamedLast = .ok l c ∧
    l.directive = .define name params variadic body ∧ (∀ t ∈ body, ¬t.LoneQuote) ∧ (∀ t ∈ body.head?, t.value ∉ ["=", "=="]) ∧
    (ofParts name params variadic body).spelling = "F(a,__VA_ARGS__...)=a == __VA_ARGS__" ∧
    ∃ m, ofDefinition (ofParts name params variadic body).spelling = .ok m ∧ m.name = (ofParts name params variadic body).name ∧
      m.shape = (ofParts name params variadic body).shape ∧ SaySame m.body body := by
  have hparsed : (Parse.directiveLine.run' { tokens := Token.ofText unnamedLast }).map (·.directive) =
      some (.define { value := "F", kind := .identifier, column := 8, spaced := true }
        (some [{ value := "a", kind := .identifier, column := 10 }])
        (some { value := "__VA_ARGS__", kind := .identifier, column := 13, generated := true })
        [{ value := "a", kind := .identifier, column := 18, spaced := true },
         { value := "==", kind := .punctuator, column := 20, spaced := true },
         { value := "__VA_ARGS__", kind := .identifier, column := 23, spaced := true }]) := by cbv
  obtain ⟨l, c, hc, hdirective⟩ := map_run'_eq_some.mp hparsed
  have hspelling := ofDefinition_spelling hc hdirective (by decide)
  exact ⟨l, c, _, _, _, _, hc, hdirective, by decide, by decide, by decide, hspelling.1 (by decide)⟩

/-- A definition whose body begins with an equals sign. -/
def equalsFirst : String :=
  "#define A = 1"

/-- Two equals signs are one token, so a spelling that begins its body with one of them is refused. -/
theorem ofDefinition_twoEquals : (ofDefinition "A== 1").toOption.isSome = false := by
  cbv

/-- The spelling of a macro whose body begins with an equals sign is refused: the sign before the body and the sign it begins with are read
as one token. -/
theorem spelling_equalsFirst_refused : ∃ l c name params variadic body, DirectiveLine.ofText equalsFirst = .ok l c ∧
    l.directive = .define name params variadic body ∧ (∀ t ∈ body, ¬t.LoneQuote) ∧
    (ofParts name params variadic body).spelling = "A== 1" ∧ ∀ m, ofDefinition (ofParts name params variadic body).spelling ≠ .ok m := by
  have hparsed : (Parse.directiveLine.run' { tokens := Token.ofText equalsFirst }).map (·.directive) =
      some (.define { value := "A", kind := .identifier, column := 8, spaced := true } none none
        [{ value := "=", kind := .punctuator, column := 10, spaced := true },
         { value := "1", kind := .numberLiteral, column := 12, spaced := true }]) := by cbv
  have hrefused := ofDefinition_twoEquals
  obtain ⟨l, c, hc, hdirective⟩ := map_run'_eq_some.mp hparsed
  refine ⟨l, c, _, _, _, _, hc, hdirective, by decide, by decide, fun m hm => ?_⟩
  have hspelled : ofDefinition "A== 1" = .ok m := hm
  rw [hspelled] at hrefused
  cases hrefused

end Macro

end Prepass
