import Mathlib
import Prepass.Proofs.Directive.Parameters

/-!
# Definition lines read back

A definition line that is written with a name, a parameter list and a body is parsed as the macro with this name, these parameters and the
tokens of this body (`Macro.definition_read_back`). The name and the parameters are lexed one by one before whatever comes next
(`Parse.content_scan_list`), and the body may be any text, since nothing before it begins a literal. With a blank between, a parenthesis
after the name belongs to the body. With none, what follows has to be a parameter list and a closing parenthesis, and the line is
refused otherwise.
-/

namespace Prepass

namespace Parse

/-! ## Definition lines -/

/-- No other form takes a definition. -/
theorem yields_forms_refused {key : Token} (hkey : key.content = ("define", .identifier)) (ts : List Token) :
    ∀ form ∈ forms.tail, ∃ e, Yields form (key :: ts) (.error e) := by
  obtain ⟨hvalue, hkind⟩ : key.value = "define" ∧ key.kind = .identifier := Prod.mk.inj hkey
  have hkeyword {values : List String} (hvalues : "define" ∉ values) {rest : Token → Parse Directive} :
      Yields (keyword values >>= rest) (key :: ts) (.error (.expectedOneOf values)) :=
    (yields_token_error (by simp [hvalue, hvalues]) _ _).bind_error
  intro form hform
  simp only [forms, List.tail_cons, List.mem_cons, List.not_mem_nil, or_false] at hform
  rcases hform with rfl | rfl | rfl | rfl | rfl | rfl | rfl | rfl
  · exact ⟨_, (hkeyword (by decide)).whole_error _⟩
  · exact ⟨_, (hkeyword (by decide)).whole_error _⟩
  · exact ⟨_, (hkeyword (by decide)).whole_error _⟩
  · exact ⟨_, (hkeyword (by decide)).whole_error _⟩
  · exact ⟨_, (hkeyword (by decide)).whole_error _⟩
  · exact ⟨_, (hkeyword (by decide)).whole_error _⟩
  · exact ⟨_, (hkeyword (by decide)).whole_error _⟩
  · exact ⟨_, hkeyword (by decide)⟩

theorem yields_firstOf_refused {fs : List (Parse Directive)} (hfs : ∀ form ∈ fs, Keyed form) {ts : List Token}
    (hrefused : ∀ form ∈ fs, ∃ e, Yields form ts (.error e)) : Yields (firstOf fs) ts (.ok (none, ts)) := by
  induction fs with
  | nil => exact yields_pure none ts
  | cons form fs ih =>
    obtain ⟨e, he⟩ := hrefused form List.mem_cons_self
    refine (he.optional_error (hfs form List.mem_cons_self).tokens_eq).bind ?_
    exact ih (fun f hf => hfs f (List.mem_cons_of_mem form hf)) fun f hf => hrefused f (List.mem_cons_of_mem form hf)

section

variable {key : Token} (hkey : key.content = ("define", .identifier)) {ts : List Token}
include hkey

/-- What is left after the parts of a definition is its body. -/
theorem yields_define {parts : Token × Option (List Token) × Option Token} {body : List Token}
    (h : Yields macroDefinition ts (.ok (parts, body))) :
    Yields directive (key :: ts) (.ok (.define parts.1 parts.2.1 parts.2.2 body, [])) := by
  obtain ⟨hvalue, hkind⟩ : key.value = "define" ∧ key.kind = .identifier := Prod.mk.inj hkey
  have hdefine : Yields define (key :: ts) (.ok (.define parts.1 parts.2.1 parts.2.2 body, [])) := by
    refine Yields.whole ((yields_token (by simp [hvalue, hkind]) _ _).bind (h.bind ?_)) _
    exact (yields_takeRest body).bind (yields_pure _ _)
  have hfirst : Yields (firstOf forms) (key :: ts) (.ok (some (.define parts.1 parts.2.1 parts.2.2 body), [])) :=
    hdefine.optional.bind (yields_pure _ _)
  refine (yields_atEnd _).bind (hfirst.bind ?_)
  exact (yields_atEnd []).bind (yields_pure _ _)

/-- A definition without its parts is refused, and nothing else is made of the line. -/
theorem yields_directive_refused {e : ParseError} (h : Yields macroDefinition ts (.error e)) :
    Yields directive (key :: ts) (.error (.invalidDirective "define")) := by
  obtain ⟨hvalue, hkind⟩ : key.value = "define" ∧ key.kind = .identifier := Prod.mk.inj hkey
  have hdefine : ∃ e, Yields define (key :: ts) (.error e) :=
    ⟨_, Yields.whole_error ((yields_token (by simp [hvalue, hkind]) _ _).bind h.bind_error) _⟩
  have hforms : ∀ form ∈ forms, ∃ e, Yields form (key :: ts) (.error e) :=
    List.forall_mem_cons.mpr ⟨hdefine, yields_forms_refused hkey ts⟩
  refine (yields_atEnd _).bind ((yields_firstOf_refused keyed_forms hforms).bind ((yields_peek key ts).bind ?_))
  rw [if_pos (by simp [hvalue, hkind, keywords]), hvalue]
  exact (yields_throw _ _).bind_error

end

/-! ## Lines and what is parsed of them -/

section

variable {text uri : String} {line : Int} {hash : Token} {ts left : List Token}

/-- A line says what is parsed of it after its number sign. -/
theorem ofText_of_yields (htokens : Token.ofText text line uri = hash :: ts) (hhash : hash.content = ("#", .punctuator)) {d : Directive}
    (h : Yields directive ts (.ok (d, left))) : ∃ c, DirectiveLine.ofText text line uri = .ok ⟨hash :: ts, d⟩ c := by
  obtain ⟨c, hc, -⟩ := h.exists_ok (c := { tokens := hash :: ts, pos := 1 }) rfl
  refine ⟨c, ?_⟩
  rw [DirectiveLine.ofText, htokens, directiveLine_eq (congrArg Prod.snd hhash) (congrArg Prod.fst hhash), bind_of_ok hc]
  rfl

theorem ofText_of_yields_error (htokens : Token.ofText text line uri = hash :: ts) (hhash : hash.content = ("#", .punctuator))
    {e : ParseError} (h : Yields directive ts (.error e)) : ∃ c, DirectiveLine.ofText text line uri = .error e c := by
  obtain ⟨c, hc⟩ := h.exists_error (c := { tokens := hash :: ts, pos := 1 }) rfl
  refine ⟨c, ?_⟩
  rw [DirectiveLine.ofText, htokens, directiveLine_eq (congrArg Prod.snd hhash) (congrArg Prod.fst hhash), bind_of_error hc]

end

/-! ## Definition lines as they are written -/

/-- A text that is a definition line up to the parenthesis right after the name of its macro, with the tokens after that. -/
def Opened (text : String) (line : Int) (uri : String) (name : String) (ts : List Token) : Prop :=
  ∃ hash key head opening, Token.ofText text line uri = hash :: key :: head :: opening :: ts ∧ hash.content = ("#", .punctuator) ∧
    key.content = ("define", .identifier) ∧ head.content = (name, .identifier) ∧ opening.content = ("(", .punctuator) ∧
    opening.spaced = false

/-- The tokens of a definition line up to the name of its macro. -/
theorem exists_ofText_define {name : String} (hname : Lexer.IsIdentifier name.toList) {rest : String}
    (hrest : ∀ c ∈ rest.toList.head?, Lexer.isIdentifierPart c = false ∧ c ≠ Text.apostrophe ∧ c ≠ '"') (line : Int) (uri : String) :
    ∃ hash key head column, Token.ofText ("#define " ++ name ++ rest) line uri =
        hash :: key :: head :: Lexer.scan line uri column false rest.toList ∧
      hash.content = ("#", .punctuator) ∧ key.content = ("define", .identifier) ∧ head.content = (name, .identifier) := by
  have htext : ("#define " ++ name ++ rest).toList = ['#'] ++ ("define".toList ++ ' ' :: (name.toList ++ rest.toList)) := by
    simp
  have hdefine : Lexer.IsIdentifier "define".toList :=
    ⟨by decide, by decide, List.all_eq_true.mp (by decide)⟩
  have hhash : Lexer.Starts ['#'] ("define".toList ++ ' ' :: (name.toList ++ rest.toList)) .punctuator :=
    Lexer.starts_punctuator (by decide) (by decide) (by decide) (by decide) rfl
  have hkey : Lexer.Starts "define".toList (' ' :: (name.toList ++ rest.toList)) .identifier := hdefine.starts (by rintro _ ⟨⟩; decide)
  have hhead : Lexer.Starts name.toList rest.toList .identifier := hname.starts hrest
  rw [Token.ofText, htext, hhash.scan_eq, hkey.scan_eq, Lexer.scan_blank (by decide), hhead.scan_eq]
  exact ⟨_, _, _, _, rfl, rfl, rfl, congrArg (·, Token.Kind.identifier) String.ofList_toList⟩

/-- After a blank the first token knows of it. -/
theorem spaced_of_scan {line column : Int} {uri : String} {cs : List Char} :
    ∀ t ∈ (Lexer.scan line uri column true cs).head?, t.spaced = true := by
  induction cs using Lexer.reading_induction generalizing column with
  | nil => simp [Lexer.scan_nil]
  | blank c rest hc ih =>
    rw [Lexer.scan_blank hc]
    exact ih
  | lexeme v tail kind hstarts ih =>
    rw [hstarts.scan_eq]
    rintro _ ⟨⟩
    rfl

/-- A definition line with a parenthesis right after the name. -/
theorem exists_opened {name : String} (hname : Lexer.IsIdentifier name.toList) (rest : String) (line : Int) (uri : String) :
    ∃ ts, Opened ("#define " ++ name ++ "(" ++ rest) line uri name ts ∧ SaySame ts (Token.ofText rest) := by
  have hhead : ∀ c ∈ ("(" ++ rest).toList.head?, Lexer.isIdentifierPart c = false ∧ c ≠ Text.apostrophe ∧ c ≠ '"' := by
    rw [String.toList_append]
    rintro _ ⟨⟩
    decide
  obtain ⟨hash, key, head, column, htokens, hhash, hkey, hname⟩ := exists_ofText_define hname hhead line uri
  have hopening : Lexer.Starts ['('] rest.toList .punctuator := Lexer.starts_separator (by decide) rest.toList
  rw [String.toList_append, show "(".toList = ['('] from rfl, hopening.scan_eq, ← String.append_assoc] at htokens
  exact ⟨_, ⟨hash, key, head, _, htokens, hhash, hkey, hname, rfl, rfl⟩, Lexer.scan_place ..⟩

/-- A definition line with a blank after the name. -/
theorem exists_spaced {name : String} (hname : Lexer.IsIdentifier name.toList) (body : String) (line : Int) (uri : String) :
    ∃ hash key head ts, Token.ofText ("#define " ++ name ++ " " ++ body) line uri = hash :: key :: head :: ts ∧
      hash.content = ("#", .punctuator) ∧ key.content = ("define", .identifier) ∧ head.content = (name, .identifier) ∧
      (∀ next ∈ ts.head?, next.spaced = true) ∧ SaySame ts (Token.ofText body) := by
  have hhead : ∀ c ∈ (" " ++ body).toList.head?, Lexer.isIdentifierPart c = false ∧ c ≠ Text.apostrophe ∧ c ≠ '"' := by
    rw [String.toList_append]
    rintro _ ⟨⟩
    decide
  obtain ⟨hash, key, head, column, htokens, hhash, hkey, hname⟩ := exists_ofText_define hname hhead line uri
  rw [String.toList_append, show " ".toList = [' '] from rfl, List.singleton_append, Lexer.scan_blank (by decide),
    ← String.append_assoc] at htokens
  exact ⟨hash, key, head, _, htokens, hhash, hkey, hname, spaced_of_scan, Lexer.scan_place ..⟩

end Parse

namespace Macro

/-- The macro that a text defines as a directive line. -/
def DefinedBy (m : Macro) (text : String) (line : Int) (uri : String) : Prop :=
  ∃ l c name params variadic body, DirectiveLine.ofText text line uri = .ok l c ∧ l.directive = .define name params variadic body ∧
    m = ofParts name params variadic body

variable {text uri name : String} {line : Int} {ts : List Token}

open Parse

theorem params?_ofParts (head : Token) (found : List Token) (last : Option Token) (body : List Token) :
    (ofParts head (some found) last body).params? = some (found.map Token.value ++ (last.map Token.value).toList) ∧
      (ofParts head (some found) last body).isVariadic = (last.map Token.value).isSome := by
  cases last <;> simp [ofParts, params?, isVariadic]

theorem lexed_of_opened (hopened : Opened text line uri name ts) : ∀ t ∈ ts, t.Lexed := by
  obtain ⟨hash, key, head, opening, htokens, -⟩ := hopened
  intro t ht
  have hmem : t ∈ Token.ofText text line uri := by simp [htokens, ht]
  exact Token.lexed_of_mem hmem

/-- After a parameter list and a closing parenthesis, what is left is the body. -/
theorem exists_definedBy_of_contents (hopened : Opened text line uri name ts) {names : List String} {ending : Ending}
    {more : List (String × Token.Kind)} (hts : ts.map Token.content = listContents ending names ++ (")", .punctuator) :: more) :
    ∃ m : Macro, m.DefinedBy text line uri ∧ m.name = name ∧ m.params? = some (names ++ ending.name?.toList) ∧
      m.isVariadic = ending.name?.isSome ∧ m.body.map Token.content = more := by
  obtain ⟨found, last, left, hlist, hvalues, hlast, hleft⟩ := yields_parameterList_of_contents (lexed_of_opened hopened) hts
  obtain ⟨hash, key, head, opening, htokens, hhash, hkey, hhead, hopening, hspaced⟩ := hopened
  obtain ⟨close, body, rfl, hclose, hbody⟩ := List.map_eq_cons_iff.mp hleft
  have hparts := yields_macroDefinition_function (congrArg Prod.snd hhead) hopening hspaced hclose hlist
  obtain ⟨c, hc⟩ := ofText_of_yields htokens hhash (yields_define hkey hparts)
  obtain ⟨hparams, hvariadic⟩ := params?_ofParts head found last body
  rw [hvalues, hlast] at hparams
  rw [hlast] at hvariadic
  exact ⟨ofParts head (some found) last body, ⟨_, c, _, _, _, _, hc, rfl, rfl⟩, congrArg Prod.fst hhead, hparams, hvariadic, hbody⟩

/-- Without a parameter list and a closing parenthesis the line is refused. -/
theorem refused_of_opened (hopened : Opened text line uri name ts) (hlist : ¬BeginsWithList ts) :
    ∃ c, DirectiveLine.ofText text line uri = .error (.invalidDirective "define") c := by
  have hlexed := lexed_of_opened hopened
  obtain ⟨hash, key, head, opening, htokens, hhash, hkey, hhead, hopening, hspaced⟩ := hopened
  obtain ⟨e, he⟩ := yields_macroDefinition_refused (congrArg Prod.snd hhead) hopening hspaced hlexed hlist
  exact ofText_of_yields_error htokens hhash (yields_directive_refused hkey he)

/-- A definition line with a name, parameters and a body says what is written in it. With a parameter list right after the name, the macro has
this name, these parameters, the last one variadic if it is written so, and the tokens of this body, whatever the body is. With a blank after
the name, the macro is object-like, and a parenthesis after the blank belongs to its body. And whenever a parenthesis comes right after the name, in
whatever line, what follows defines a macro if it begins with a parameter list and a closing parenthesis, and the line is refused
if not. -/
theorem definition_read_back {name : String} (hname : Lexer.IsIdentifier name.toList) {params : List String}
    (hparams : ∀ p ∈ params, Lexer.IsIdentifier p.toList) {ending : Ending} (hending : ∀ v, ending = .named v → Lexer.IsIdentifier v.toList)
    (body : String) (line : Int) (uri : String) :
    (∃ m : Macro, m.DefinedBy ("#define " ++ name ++ "(" ++ Text.join ", " (params ++ ending.items) ++ ") " ++ body) line uri ∧
      m.name = name ∧ m.params? = some (params ++ ending.name?.toList) ∧ m.isVariadic = ending.name?.isSome ∧
      SaySame m.body (Token.ofText body)) ∧
    (∃ m : Macro, m.DefinedBy ("#define " ++ name ++ " " ++ body) line uri ∧ m.name = name ∧ m.shape = .object ∧
      SaySame m.body (Token.ofText body)) ∧
    ∀ text head ts, Opened text line uri head ts →
      (BeginsWithList ts → ∃ m : Macro, m.DefinedBy text line uri ∧ m.name = head) ∧
      (¬BeginsWithList ts → ∃ c, DirectiveLine.ofText text line uri = .error (.invalidDirective "define") c) := by
  refine ⟨?_, ?_, fun text head ts hopened => ⟨?_, refused_of_opened hopened⟩⟩
  · obtain ⟨ts, hopened, hsame⟩ := exists_opened hname (Text.join ", " (params ++ ending.items) ++ ") " ++ body) line uri
    have hspacer : ", ".toList = [',', ' '] := rfl
    have hblanks : ∀ c ∈ [' '], Text.isBlank c = true := List.forall_mem_singleton.mpr (by decide)
    have hlist := content_scan_list hspacer hblanks hparams hending ([' '] ++ body.toList)
    rw [content_scan_blanks hblanks] at hlist
    have htext : (Text.join ", " (params ++ ending.items) ++ ") " ++ body).toList =
        (Text.join ", " (params ++ ending.items)).toList ++ ')' :: ([' '] ++ body.toList) := by
      simp
    rw [SaySame, Token.ofText, htext, hlist] at hsame
    rw [← String.append_assoc, ← String.append_assoc] at hopened
    exact exists_definedBy_of_contents hopened hsame
  · obtain ⟨hash, key, head, ts, htokens, hhash, hkey, hhead, hspaced, hsame⟩ := exists_spaced hname body line uri
    have hparts := yields_macroDefinition_object (congrArg Prod.snd hhead) fun next hnext => .inr (hspaced next hnext)
    obtain ⟨c, hc⟩ := ofText_of_yields htokens hhash (yields_define hkey hparts)
    exact ⟨ofParts head none none ts, ⟨_, c, _, _, _, _, hc, rfl, rfl⟩, congrArg Prod.fst hhead, rfl, hsame⟩
  · rintro ⟨inside, close, after, ending, names, rfl, hclose, -, hinside⟩
    have hts : (inside ++ close :: after).map Token.content = listContents ending names ++ (")", .punctuator) :: after.map Token.content := by
      rw [List.map_append, hinside, List.map_cons, hclose]
    obtain ⟨m, hm, hname, -⟩ := exists_definedBy_of_contents hopened hts
    exact ⟨m, hm, hname⟩

/-- A body that begins with a parenthesis and a quote that is not closed. -/
def halfQuoted : String :=
  "(\"a"

theorem definition_read_back_halfQuoted :
    (∃ m : Macro, m.DefinedBy "#define F(a, ...) (\"a" 1 "" ∧ m.name = "F" ∧ m.params? = some ["a", "__VA_ARGS__"] ∧ m.isVariadic = true ∧
      SaySame m.body (Token.ofText halfQuoted)) ∧
    (∃ m : Macro, m.DefinedBy "#define F (\"a" 1 "" ∧ m.name = "F" ∧ m.shape = .object ∧ SaySame m.body (Token.ofText halfQuoted)) ∧
    ∃ c, DirectiveLine.ofText "#define F(a" 1 "" = .error (.invalidDirective "define") c := by
  have hname : Lexer.IsIdentifier "F".toList := ⟨by decide, by decide, List.all_eq_true.mp (by decide)⟩
  have hparam : Lexer.IsIdentifier "a".toList := ⟨by decide, by decide, List.all_eq_true.mp (by decide)⟩
  have hparams : ∀ p ∈ ["a"], Lexer.IsIdentifier p.toList := by simpa using hparam
  have hending : ∀ v, Ending.unnamed = .named v → Lexer.IsIdentifier v.toList := by simp
  have hread := definition_read_back hname hparams hending halfQuoted 1 ""
  obtain ⟨ts, hopened, hsame⟩ := exists_opened hname "a" 1 ""
  have hlist : ¬BeginsWithList ts := by
    rintro ⟨inside, close, after, -, -, rfl, hclose, -⟩
    have hmem : close.content ∈ (Token.ofText "a").map Token.content := by
      rw [← hsame]
      simp
    have ha : (Token.ofText "a").map Token.content = [("a", .identifier)] := by cbv
    simp [ha, hclose] at hmem
  exact ⟨hread.1, hread.2.1, (hread.2.2 _ _ ts hopened).2 hlist⟩

end Macro

end Prepass
