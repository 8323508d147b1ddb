import Mathlib
import Prepass.Proofs.Directive.Yields

/-!
# Parameter lists

A parameter list is identifiers with commas between them, and at its end there may be a variadic parameter: an ellipsis, or an identifier with
an ellipsis after it (`Parse.listContents`). The parser accepts just these lists, up to a closing parenthesis. It finds the parameters of
every one of them (`Parse.yields_parameterList_of_contents`), and what it accepts is one (`Parse.yields_parameterList_cases`). So where a
parenthesis comes right after the name of a macro, and no parameter list up to a closing parenthesis comes after it, the definition is
refused (`Parse.yields_macroDefinition_refused`). A parameter list that is written out is lexed as its contents
(`Parse.content_scan_list`).
-/

namespace Prepass

namespace Parse

/-! ## The grammar -/

/-- How a parameter list ends: with a parameter like any other, if it has one, or with a variadic parameter. -/
inductive Ending where
  | plain
  | unnamed
  | named (name : String)
  deriving DecidableEq, Repr

namespace Ending

/-- The name of the variadic parameter. -/
def name? : Ending → Option String
  | plain => none
  | unnamed => some variadicName
  | named name => some name

/-- The contents of the tokens of the variadic parameter. -/
def contents : Ending → List (String × Token.Kind)
  | plain => []
  | unnamed => [("...", .punctuator)]
  | named name => [(name, .identifier), ("...", .punctuator)]

end Ending

/-- The contents of the tokens of a parameter list: a comma comes after a parameter, unless nothing else comes. -/
def listContents (ending : Ending) : List String → List (String × Token.Kind)
  | [] => ending.contents
  | p :: rest => (p, .identifier) :: if rest = [] ∧ ending = .plain then [] else (",", .punctuator) :: listContents ending rest

/-- Whether tokens begin with a parameter list and a closing parenthesis, the first one among them. -/
def BeginsWithList (ts : List Token) : Prop :=
  ∃ inside close after ending names, ts = inside ++ close :: after ∧ close.content = (")", .punctuator) ∧
    (∀ t ∈ inside, t.value ≠ ")") ∧ inside.map Token.content = listContents ending names

/-- An ellipsis is known by its value and kind. -/
theorem isEllipsis_iff (t : Token) : isEllipsis t = true ↔ t.content = ("...", .punctuator) := by
  simp [isEllipsis, Token.content, and_comm]

/-- A parameter that is not the last thing of the list has a comma after it. -/
theorem listContents_more {ending : Ending} {rest : List String} (h : rest ≠ [] ∨ ending ≠ .plain) (p : String) :
    listContents ending (p :: rest) = (p, .identifier) :: (",", .punctuator) :: listContents ending rest := by
  rw [listContents, if_neg]
  rintro ⟨rfl, rfl⟩
  simp at h

/-- A parameter list that is not empty begins with an identifier or an ellipsis. -/
theorem exists_listContents {ending : Ending} {names : List String} (h : names ≠ [] ∨ ending ≠ .plain) :
    ∃ c more, (c.2 = .identifier ∨ c.1 = "...") ∧ listContents ending names = c :: more := by
  cases names with
  | cons p rest => exact ⟨_, _, .inl rfl, rfl⟩
  | nil =>
    cases ending with
    | plain => simp at h
    | unnamed => exact ⟨_, _, .inr rfl, rfl⟩
    | named v => exact ⟨_, _, .inl rfl, rfl⟩

/-- No identifier is a closing parenthesis. -/
theorem value_ne_close {t : Token} (h : t.Lexed) (hkind : t.kind = .identifier) : t.value ≠ ")" :=
  Token.Name.value_ne ⟨hkind, h⟩ ')' [] (by decide)

/-! ## Lists that are parsed -/

section

variable {t u : Token} (ht : t.kind = .identifier) (params ts : List Token)
include ht

/-- A parameter with an ellipsis after it ends the list as the variadic one. -/
theorem parameters_ellipsis (hu : u.content = ("...", .punctuator)) : parameters params (t :: u :: ts) = (.ok (params, some t), 2) := by
  obtain ⟨hvalue, hkind⟩ : u.value = "..." ∧ u.kind = .punctuator := Prod.mk.inj hu
  simp [parameters, isEllipsis, ht, hvalue, hkind]

/-- A parameter with a closing parenthesis after it is the last one. -/
theorem parameters_close (hu : u.content = (")", .punctuator)) : parameters params (t :: u :: ts) = (.ok (params ++ [t], none), 1) := by
  obtain ⟨hvalue, hkind⟩ : u.value = ")" ∧ u.kind = .punctuator := Prod.mk.inj hu
  simp [parameters, isEllipsis, ht, hvalue]

/-- After a parameter with a comma, reading goes on with the rest. -/
theorem parameters_comma (hu : u.content = (",", .punctuator)) : parameters params (t :: u :: ts) =
    ((parameters (params ++ [t]) ts).1, (parameters (params ++ [t]) ts).2 + 2) := by
  obtain ⟨hvalue, hkind⟩ : u.value = "," ∧ u.kind = .punctuator := Prod.mk.inj hu
  rw [parameters]
  simp [isEllipsis, ht, hvalue, hkind]

end

/-- The parameters of a parameter list are found, whatever comes after the closing parenthesis. -/
theorem parameters_of_listContents {names : List String} {ending : Ending} (hne : names ≠ [] ∨ ending ≠ .plain)
    {more : List (String × Token.Kind)} {ts : List Token}
    (hts : ts.map Token.content = listContents ending names ++ (")", .punctuator) :: more) (params : List Token) :
    ∃ found last read, parameters params ts = (.ok (params ++ found, last), read) ∧ found.map Token.value = names ∧
      last.map Token.value = ending.name? ∧ (ts.drop read).map Token.content = (")", .punctuator) :: more := by
  induction names generalizing ts params with
  | nil =>
    cases ending with
    | plain => simp at hne
    | unnamed =>
      obtain ⟨dots, ts, rfl, hdots, hts⟩ := List.map_eq_cons_iff.mp hts
      have hellipsis : isEllipsis dots = true := (isEllipsis_iff dots).mpr hdots
      refine ⟨[], some (unnamedVariadic dots), 1, ?_, rfl, rfl, hts⟩
      rw [parameters.eq_def]
      simp [hellipsis]
    | named v =>
      obtain ⟨t, ts, rfl, ht, hts⟩ := List.map_eq_cons_iff.mp hts
      obtain ⟨u, ts, rfl, hu, hts⟩ := List.map_eq_cons_iff.mp hts
      refine ⟨[], some t, 2, ?_, rfl, congrArg some (congrArg Prod.fst ht), hts⟩
      rw [List.append_nil]
      exact parameters_ellipsis (congrArg Prod.snd ht) params ts hu
  | cons p rest ih =>
    by_cases hmore : rest ≠ [] ∨ ending ≠ .plain
    · rw [listContents_more hmore] at hts
      obtain ⟨t, ts, rfl, ht, hts⟩ := List.map_eq_cons_iff.mp hts
      obtain ⟨u, ts, rfl, hu, hts⟩ := List.map_eq_cons_iff.mp hts
      obtain ⟨found, last, read, hfound, hvalues, hlast, hleft⟩ := ih hmore hts (params ++ [t])
      refine ⟨t :: found, last, read + 2, ?_, congrArg₂ List.cons (congrArg Prod.fst ht) hvalues, hlast, hleft⟩
      rw [parameters_comma (congrArg Prod.snd ht) params ts hu, hfound]
      simp
    · obtain ⟨rfl, rfl⟩ : rest = [] ∧ ending = .plain := by simpa using hmore
      obtain ⟨t, ts, rfl, ht, hts⟩ := List.map_eq_cons_iff.mp hts
      obtain ⟨u, ts, rfl, hu, hmore⟩ := List.map_eq_cons_iff.mp hts
      refine ⟨[t], none, 1, parameters_close (congrArg Prod.snd ht) params ts hu, ?_, rfl, hts⟩
      exact congrArg ([·]) (congrArg Prod.fst ht)

/-- The parameters of a parameter list are found up to the closing parenthesis. -/
theorem yields_parameterList_of_contents {names : List String} {ending : Ending} {more : List (String × Token.Kind)} {ts : List Token}
    (hlexed : ∀ t ∈ ts, t.Lexed)
    (hts : ts.map Token.content = listContents ending names ++ (")", .punctuator) :: more) :
    ∃ found last left, Yields parameterList ts (.ok ((found, last), left)) ∧ found.map Token.value = names ∧
      last.map Token.value = ending.name? ∧ left.map Token.content = (")", .punctuator) :: more := by
  by_cases hne : names ≠ [] ∨ ending ≠ .plain
  · obtain ⟨found, last, read, hfound, hvalues, hlast, hleft⟩ := parameters_of_listContents hne hts []
    refine ⟨found, last, ts.drop read, ?_, hvalues, hlast, hleft⟩
    cases ts with
    | nil => cases hfound
    | cons t ts =>
      have ht : t.value ≠ ")" := by
        obtain ⟨c, more', hc, hcontents⟩ := exists_listContents hne
        rw [hcontents, List.cons_append, List.map_cons] at hts
        have hcontent : t.content = c := (List.cons.inj hts).1
        rcases hc with hkind | hdots
        · exact value_ne_close (hlexed t List.mem_cons_self) ((congrArg Prod.snd hcontent).trans hkind)
        · rw [show t.value = "..." from (congrArg Prod.fst hcontent).trans hdots]
          decide
      refine (yields_peek t ts).bind ?_
      rw [if_neg ht]
      exact yields_someParameters hfound
  · obtain ⟨rfl, rfl⟩ : names = [] ∧ ending = .plain := by simpa using hne
    obtain ⟨close, left, rfl, hclose, -⟩ := List.map_eq_cons_iff.mp hts
    refine ⟨[], none, close :: left, (yields_peek close left).bind ?_, rfl, rfl, hts⟩
    rw [if_pos (show close.value = ")" from congrArg Prod.fst hclose)]
    exact yields_pure _ _

/-! ## Lists that are refused -/

/-- What is read as parameters is a parameter list, without a closing parenthesis in it. -/
theorem listContents_of_parameters {params ts found : List Token} {last : Option Token} {read : Nat}
    (hlexed : ∀ t ∈ ts, t.Lexed) (h : parameters params ts = (.ok (found, last), read)) :
    ∃ ending names, (names ≠ [] ∨ ending ≠ .plain) ∧ (ts.take read).map Token.content = listContents ending names ∧
      ∀ t ∈ ts.take read, t.value ≠ ")" := by
  fun_induction parameters params ts generalizing read with
  | case1 => cases h
  | case2 params p rest hdots =>
    cases h
    have hcontent := (isEllipsis_iff p).mp hdots
    refine ⟨.unnamed, [], by simp, by simp [hcontent, listContents, Ending.contents], ?_⟩
    simp [show p.value = "..." from congrArg Prod.fst hcontent]
  | case3 => cases h
  | case4 => cases h
  | case5 params p _ hkind t more hdots =>
    cases h
    have hkind : p.kind = .identifier := by simpa using hkind
    have hcontent := (isEllipsis_iff t).mp hdots
    refine ⟨.named p.value, [], by simp, ?_, ?_⟩
    · rw [List.take_succ_cons, List.take_one, List.map_cons, show p.content = (p.value, .identifier) from congrArg (p.value, ·) hkind]
      simp [hcontent, listContents, Ending.contents]
    · have hp := value_ne_close (hlexed p List.mem_cons_self) hkind
      simp [hp, show t.value = "..." from congrArg Prod.fst hcontent]
  | case6 params p _ hkind t more _ hclose =>
    cases h
    have hkind : p.kind = .identifier := by simpa using hkind
    refine ⟨.plain, [p.value], by simp, by simp [listContents, Token.content, hkind], ?_⟩
    simpa using value_ne_close (hlexed p List.mem_cons_self) hkind
  | case7 params p _ hkind t more _ _ hcomma result count hmore ih =>
    rw [Prod.mk.injEq] at h
    obtain ⟨rfl, rfl⟩ := h
    have hkind : p.kind = .identifier := by simpa using hkind
    obtain ⟨ending, names, hne, hcontents, hvalues⟩ := ih (fun u hu => hlexed u (by simp [hu])) hmore
    refine ⟨ending, p.value :: names, by simp, ?_, ?_⟩
    · rw [listContents_more hne, List.take_succ_cons, List.take_succ_cons, List.map_cons, List.map_cons, hcontents]
      simp [Token.content, hkind, hcomma.1, hcomma.2]
    · have hp := value_ne_close (hlexed p List.mem_cons_self) hkind
      rw [List.take_succ_cons, List.take_succ_cons]
      simpa [hp, hcomma.2] using hvalues
  | case8 => cases h

/-- Parsing a parameter list is refused, or what it takes off is a parameter list. -/
theorem yields_parameterList_cases {ts : List Token} (hlexed : ∀ t ∈ ts, t.Lexed) :
    (∃ e, Yields parameterList ts (.error e)) ∨ ∃ found inside left ending names, Yields parameterList ts (.ok (found, left)) ∧
      ts = inside ++ left ∧ (∀ t ∈ inside, t.value ≠ ")") ∧ inside.map Token.content = listContents ending names := by
  cases ts with
  | nil => exact .inl ⟨_, yields_peek_nil.bind_error⟩
  | cons t ts =>
    by_cases hclose : t.value = ")"
    · refine .inr ⟨([], none), [], t :: ts, .plain, [], (yields_peek t ts).bind ?_, rfl, by simp, rfl⟩
      rw [if_pos hclose]
      exact yields_pure _ _
    · cases hfound : parameters [] (t :: ts) with
      | mk result read =>
        cases result with
        | error e =>
          refine .inl ⟨e, (yields_peek t ts).bind ?_⟩
          rw [if_neg hclose]
          exact yields_someParameters_error hfound
        | ok found =>
          obtain ⟨ending, names, -, hcontents, hvalues⟩ := listContents_of_parameters hlexed hfound
          refine .inr ⟨found, (t :: ts).take read, (t :: ts).drop read, ending, names, (yields_peek t ts).bind ?_,
            (List.take_append_drop ..).symm, hvalues, hcontents⟩
          rw [if_neg hclose]
          exact yields_someParameters hfound

/-! ## Names with and without a list -/

/-- A name alone, or before something that opens no parameter list, is that of an object-like macro. -/
theorem yields_macroDefinition_object {name : Token} (hname : name.kind = .identifier) {ts : List Token}
    (hnext : ∀ next ∈ ts.head?, next.value ≠ "(" ∨ next.spaced = true) :
    Yields macroDefinition (name :: ts) (.ok ((name, none, none), ts)) := by
  refine (yields_token (by simpa using hname) _ _).bind ((yields_atEnd _).bind ?_)
  cases ts with
  | nil => exact yields_pure _ _
  | cons next rest =>
    refine (yields_peek next rest).bind ?_
    rw [if_pos (hnext next rfl)]
    exact yields_pure _ _

section

variable {name opening : Token} (hname : name.kind = .identifier) (hopening : opening.content = ("(", .punctuator))
  (hspaced : opening.spaced = false) {ts : List Token}
include hname hopening hspaced

/-- After a parenthesis right after the name of a macro, a parameter list and a closing parenthesis have to come. -/
theorem yields_macroDefinition_opened {r : Except ParseError ((Token × Option (List Token) × Option Token) × List Token)}
    (h : Yields (parameterList >>= fun found => value ")" >>= fun _ => pure (name, some found.1, found.2)) ts r) :
    Yields macroDefinition (name :: opening :: ts) r := by
  obtain ⟨hvalue, hkind⟩ : opening.value = "(" ∧ opening.kind = .punctuator := Prod.mk.inj hopening
  refine (yields_token (by simpa using hname) _ _).bind ((yields_atEnd _).bind ?_)
  refine (yields_peek opening ts).bind ?_
  rw [if_neg (by simp [hvalue, hspaced])]
  exact (yields_token (by simp [hvalue, hkind]) _ _).bind h

/-- A name with a parameter list right after it is that of a function-like macro. -/
theorem yields_macroDefinition_function {close : Token} (hclose : close.content = (")", .punctuator)) {left found : List Token}
    {last : Option Token} (hlist : Yields parameterList ts (.ok ((found, last), close :: left))) :
    Yields macroDefinition (name :: opening :: ts) (.ok ((name, some found, last), left)) := by
  obtain ⟨hvalue, hkind⟩ : close.value = ")" ∧ close.kind = .punctuator := Prod.mk.inj hclose
  refine yields_macroDefinition_opened hname hopening hspaced (hlist.bind ?_)
  exact (yields_token (by simp [hvalue, hkind]) _ _).bind (yields_pure _ _)

/-- A parenthesis right after the name, without a parameter list after it, is refused. -/
theorem yields_macroDefinition_refused (hlexed : ∀ t ∈ ts, t.Lexed) (hlist : ¬BeginsWithList ts) :
    ∃ e, Yields macroDefinition (name :: opening :: ts) (.error e) := by
  rcases yields_parameterList_cases hlexed with ⟨e, he⟩ | ⟨found, inside, left, ending, names, hfound, rfl, hvalues, hcontents⟩
  · exact ⟨e, yields_macroDefinition_opened hname hopening hspaced he.bind_error⟩
  · cases left with
    | nil => exact ⟨_, yields_macroDefinition_opened hname hopening hspaced (hfound.bind (yields_token_nil _ _).bind_error)⟩
    | cons close after =>
      have hclose : close.content ≠ (")", .punctuator) := fun hclose =>
        hlist ⟨inside, close, after, ending, names, rfl, hclose, hvalues, hcontents⟩
      have htest : decide (close.kind = .punctuator ∧ close.value = ")") = false := by
        rw [decide_eq_false_iff_not]
        rintro ⟨hkind, hvalue⟩
        exact hclose (by rw [Token.content, hkind, hvalue])
      exact ⟨_, yields_macroDefinition_opened hname hopening hspaced (hfound.bind (yields_token_error htest _ _).bind_error)⟩

end

/-! ## Lists as they are written -/

/-- What is written for the variadic parameter. -/
def Ending.items : Ending → List String
  | plain => []
  | unnamed => ["..."]
  | named name => [name ++ "..."]

/-- Blanks before a text give no tokens. -/
theorem content_scan_blanks {cs : List Char} (hcs : ∀ c ∈ cs, Text.isBlank c = true) (tail : List Char) :
    (Lexer.scan 1 "" 0 false (cs ++ tail)).map Token.content = (Lexer.scan 1 "" 0 false tail).map Token.content := by
  induction cs with
  | nil => rfl
  | cons c cs ih =>
    obtain ⟨hc, hcs⟩ := List.forall_mem_cons.mp hcs
    rw [List.cons_append, Lexer.scan_blank hc, ← ih hcs]
    exact Lexer.scan_place ..

/-- A separator is a token of its own. -/
theorem content_scan_separator {c : Char} (hc : c ∈ Lexer.separators) (tail : List Char) :
    (Lexer.scan 1 "" 0 false (c :: tail)).map Token.content =
      (String.ofList [c], .punctuator) :: (Lexer.scan 1 "" 0 false tail).map Token.content :=
  (Lexer.starts_separator hc tail).content_scan

/-- An identifier before a character that neither goes on with it nor is a quote. -/
theorem content_scan_identifier {p : String} (hp : Lexer.IsIdentifier p.toList) {tail : List Char}
    (htail : ∀ c ∈ tail.head?, Lexer.isIdentifierPart c = false ∧ c ≠ Text.apostrophe ∧ c ≠ '"') :
    (Lexer.scan 1 "" 0 false (p.toList ++ tail)).map Token.content =
      (p, .identifier) :: (Lexer.scan 1 "" 0 false tail).map Token.content := by
  rw [(hp.starts htail).content_scan, String.ofList_toList]

/-- Three periods are one token. -/
theorem content_scan_ellipsis (tail : List Char) :
    (Lexer.scan 1 "" 0 false ("...".toList ++ tail)).map Token.content =
      ("...", .punctuator) :: (Lexer.scan 1 "" 0 false tail).map Token.content :=
  (Lexer.starts_ellipsis tail).content_scan

/-- A parameter list that is written out, with a comma and any blanks after each of its parts but the last, is lexed as its contents. -/
theorem content_scan_list {spacer : String} {blanks : List Char} (hspacer : spacer.toList = ',' :: blanks)
    (hblanks : ∀ c ∈ blanks, Text.isBlank c = true) {names : List String} (hnames : ∀ p ∈ names, Lexer.IsIdentifier p.toList)
    {ending : Ending} (hending : ∀ v, ending = .named v → Lexer.IsIdentifier v.toList) (tail : List Char) :
    (Lexer.scan 1 "" 0 false ((Text.join spacer (names ++ ending.items)).toList ++ ')' :: tail)).map Token.content =
      listContents ending names ++ (")", .punctuator) :: (Lexer.scan 1 "" 0 false tail).map Token.content := by
  have hclose := content_scan_separator (c := ')') (by decide) tail
  induction names with
  | nil =>
    cases ending with
    | plain => exact hclose
    | unnamed => exact (content_scan_ellipsis (')' :: tail)).trans (congrArg _ hclose)
    | named v =>
      have hv : (Text.join spacer ([] ++ (Ending.named v).items)).toList ++ ')' :: tail = v.toList ++ ("...".toList ++ ')' :: tail) := by
        simp [Text.join, Ending.items]
      rw [hv, content_scan_identifier (hending v rfl) (by rintro _ ⟨⟩; decide), content_scan_ellipsis, hclose]
      rfl
  | cons p rest ih =>
    obtain ⟨hp, hrest⟩ := List.forall_mem_cons.mp hnames
    by_cases hlast : rest ≠ [] ∨ ending ≠ .plain
    · obtain ⟨q, more, hitems⟩ : ∃ q more, rest ++ ending.items = q :: more := by
        refine List.exists_cons_of_ne_nil fun hnil => ?_
        obtain ⟨rfl, hnone⟩ := List.append_eq_nil_iff.mp hnil
        cases ending <;> simp [Ending.items] at hnone hlast
      have hmore := ih hrest
      rw [hitems] at hmore
      have htext : (Text.join spacer (p :: rest ++ ending.items)).toList ++ ')' :: tail =
          p.toList ++ ',' :: (blanks ++ ((Text.join spacer (q :: more)).toList ++ ')' :: tail)) := by
        rw [List.cons_append, hitems, show Text.join spacer (p :: q :: more) = p ++ spacer ++ Text.join spacer (q :: more) from rfl]
        simp [hspacer]
      rw [htext, content_scan_identifier hp (by rintro _ ⟨⟩; decide), content_scan_separator (by decide), content_scan_blanks hblanks,
        hmore, listContents_more hlast]
      rfl
    · obtain ⟨rfl, rfl⟩ : rest = [] ∧ ending = .plain := by simpa using hlast
      exact (content_scan_identifier hp (by rintro _ ⟨⟩; decide)).trans (congrArg _ hclose)

end Parse

end Prepass
