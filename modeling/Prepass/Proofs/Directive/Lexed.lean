import Prepass.Proofs.Directive.Keyword
import Prepass.Proofs.Macro.Faultless

/-!
# Directives of lexed tokens

A directive line that is read from lexed tokens defines only macros with plain parameters and lexed bodies, and the expressions of its
conditionals are lexed (`Parse.reads_directiveLine`). The same holds of macros from definition texts (`Macro.sound_of_ofDefinition`): a
parameter is an identifier, and no identifier looks like an operator.
-/

namespace Prepass

/-! ## Names -/

/-- A lexed identifier. -/
def Token.Name (t : Token) : Prop :=
  t.kind = .identifier ∧ t.Lexed

/-- An identifier begins with a character that begins identifiers, so it is neither an operator nor a comma. -/
theorem Token.Name.value_notMem {t : Token} (h : t.Name) : t.value ∉ ["#", "##", ","] := by
  obtain ⟨hkind, text, hmem⟩ := h
  obtain ⟨u, hu, hcontent⟩ := List.mem_map.mp hmem
  have hfirst (first : Char) (more : List Char) (hvalue : t.value = String.ofList (first :: more)) (hdigit : Text.isDigit first = false)
      (hmark : first ∉ ['.', 'u', 'U', 'L', '@', '"', Text.apostrophe]) (hstart : Lexer.isIdentifierStart first = false) : False := by
    obtain ⟨rest, hlexeme⟩ := Lexer.kind_of_value hu ((value_of_content hcontent).trans hvalue)
    rw [kind_of_content hcontent, hkind, Lexer.lexeme_kind rest hdigit hmark, hstart] at hlexeme
    cases hlexeme
  intro hsign
  simp only [List.mem_cons, List.not_mem_nil, or_false] at hsign
  rcases hsign with hvalue | hvalue | hvalue
  · exact hfirst '#' [] hvalue (by decide) (by decide) (by decide)
  · exact hfirst '#' ['#'] hvalue (by decide) (by decide) (by decide)
  · exact hfirst ',' [] hvalue (by decide) (by decide) (by decide)

/-- The values of names are plain parameters. -/
theorem plainParams_of_names {names : List Token} (h : ∀ p ∈ names, p.Name) : PlainParams (names.map Token.value) := by
  intro sign hsign hmem
  obtain ⟨p, hp, rfl⟩ := List.mem_map.mp hmem
  exact (h p hp).value_notMem hsign

/-- A macro whose parameters are names is plain. -/
theorem Macro.plain_ofParts {name : Token} {params : Option (List Token)} {variadic : Option Token} {body : List Token}
    (hparams : ∀ names, params = some names → ∀ p ∈ names, p.Name) (hvariadic : ∀ p, variadic = some p → p.Name) :
    (ofParts name params variadic body).Plain := by
  intro found hfound
  cases variadic with
  | none =>
    cases params with
    | none => cases hfound
    | some names =>
      cases hfound
      exact plainParams_of_names (hparams names rfl)
  | some last =>
    have hall : ∀ p ∈ params.getD [] ++ [last], p.Name := by
      intro p hp
      rcases List.mem_append.mp hp with hp | hp
      · cases params with
        | none => cases hp
        | some names => exact hparams names rfl p hp
      · rw [List.mem_singleton.mp hp]
        exact hvariadic last rfl
    have hmap : found = (params.getD [] ++ [last]).map Token.value := by
      cases params <;> (cases hfound; simp)
    rw [hmap]
    exact plainParams_of_names hall

namespace Parse

/-! ## What parsers read -/

/-- A parser that, on lexed tokens, gives only values with a property and leaves the list of tokens alone. -/
structure Reads {α : Type} (P : α → Prop) (p : Parse α) : Prop where
  value_of {c c' : Cursor} {a : α} : (∀ t ∈ c.tokens, t.Lexed) → p c = .ok a c' → P a
  tokens_eq {c : Cursor} : (∀ t ∈ c.tokens, t.Lexed) → (stateAfter (p c)).tokens = c.tokens

/-- What holds of all values holds of those that are read from lexed tokens. -/
theorem Gives.reads {α : Type} {P : α → Prop} {p : Parse α} (h : Gives P p) : Reads P p :=
  ⟨fun _ => h.value_of, fun _ => h.tokens_eq _⟩

namespace Reads

variable {α β : Type} {P : β → Prop} {Q : α → Prop} {p : Parse α} {f : α → Parse β}

/-- A value with the property is given without reading. -/
theorem pure {b : β} (h : P b) : Reads P (Pure.pure b : Parse β) :=
  (Gives.pure h).reads

/-- In a row of parsers the last one gives the values, from what those before it have read. -/
theorem bind (hp : Reads Q p) (hf : ∀ a, Q a → Reads P (f a)) : Reads P (p >>= f) := by
  -- what the first parser leaves is again a cursor on the same lexed tokens
  have hnext {c c₁ : Cursor} {a : α} (hlexed : ∀ t ∈ c.tokens, t.Lexed) (hs : p c = .ok a c₁) : c₁.tokens = c.tokens := by
    have htokens := hp.tokens_eq hlexed
    rwa [hs] at htokens
  constructor
  · intro c c' b hlexed h
    obtain ⟨a, c₁, hs, h⟩ := exists_of_bind_ok h
    exact (hf a (hp.value_of hlexed hs)).value_of (by rw [hnext hlexed hs]; exact hlexed) h
  · intro c hlexed
    cases hs : p c with
    | ok a c₁ =>
      rw [bind_of_ok hs, (hf a (hp.value_of hlexed hs)).tokens_eq (by rw [hnext hlexed hs]; exact hlexed), hnext hlexed hs]
    | error e c₁ =>
      have htokens := hp.tokens_eq hlexed
      rw [hs] at htokens
      rw [bind_of_error hs]
      exact htokens

/-- Asking that all tokens are read keeps the property. -/
theorem whole (hp : Reads Q p) (e : ParseError) : Reads Q (whole p e) := by
  constructor
  · intro c c' a hlexed h
    unfold Parse.whole at h
    split at h
    · rename_i hs
      cases h
      exact hp.value_of hlexed hs
    · cases h
  · intro c hlexed
    have htokens := hp.tokens_eq hlexed
    unfold Parse.whole
    split <;> (rename_i hs; rw [hs] at htokens; exact htokens)

/-- Where a refusal is no value, the values that there are have the property. -/
theorem optional (hp : Reads Q p) : Reads (fun o => ∀ a, o = some a → Q a) (optional p) := by
  constructor
  · intro c c' o hlexed h
    unfold Parse.optional at h
    split at h
    · rename_i hs
      cases h
      rintro a ⟨⟩
      exact hp.value_of hlexed hs
    · cases h
      rintro a ⟨⟩
  · intro c hlexed
    have htokens := hp.tokens_eq hlexed
    unfold Parse.optional
    split <;> (rename_i hs; rw [hs] at htokens; exact htokens)

end Reads

/-- The rest of lexed tokens is lexed. -/
theorem reads_takeRest : Reads (fun tokens => ∀ t ∈ tokens, t.Lexed) takeRest := by
  refine ⟨?_, fun _ => rfl⟩
  intro c c' tokens hlexed h
  cases h
  exact fun t ht => hlexed t (List.mem_of_mem_drop ht)

/-- The expression of a conditional is lexed. -/
theorem reads_expression : Reads (fun tokens => ∀ t ∈ tokens, t.Lexed) expression := by
  refine reads_takeRest.bind fun tokens htokens => ?_
  split
  · exact (Gives.throw _).reads.bind fun (_ : PUnit) (_ : True) => .pure htokens
  · exact .pure htokens

/-! ## Parameters -/

/-- The name that stands for an unnamed variadic parameter is a name. -/
theorem name_unnamedVariadic (t : Token) : (unnamedVariadic t).Name := by
  have hvalue : variadicName.toList = '_' :: "_VA_ARGS__".toList := by decide
  have hlexeme : Lexer.lexeme ('_' :: "_VA_ARGS__".toList) = (.identifier, "_VA_ARGS__".toList.length + 1) := by decide
  exact ⟨rfl, Token.lexed_of_lexeme hvalue (by decide) hlexeme⟩

/-- Parameters are names. -/
theorem names_of_parameters {params tokens names : List Token} {variadic : Option Token} {read : Nat} (hparams : ∀ p ∈ params, p.Name)
    (htokens : ∀ t ∈ tokens, t.Lexed) (h : parameters params tokens = (.ok (names, variadic), read)) :
    (∀ p ∈ names, p.Name) ∧ ∀ p, variadic = some p → p.Name := by
  fun_induction parameters params tokens generalizing read with
  | case1 => cases h
  | case2 params p rest _ =>
    cases h
    refine ⟨hparams, ?_⟩
    rintro q ⟨⟩
    exact name_unnamedVariadic p
  | case3 => cases h
  | case4 => cases h
  | case5 params p _ hkind t more _ =>
    cases h
    refine ⟨hparams, ?_⟩
    rintro q ⟨⟩
    exact ⟨by simpa using hkind, htokens p (by simp)⟩
  | case6 params p _ hkind t more _ _ =>
    cases h
    refine ⟨?_, nofun⟩
    intro q hq
    rcases List.mem_append.mp hq with hq | hq
    · exact hparams q hq
    · rw [List.mem_singleton.mp hq]
      exact ⟨by simpa using hkind, htokens p (by simp)⟩
  | case7 params p _ hkind t more _ _ _ result count hmore ih =>
    rw [Prod.mk.injEq] at h
    obtain ⟨rfl, -⟩ := h
    refine ih ?_ (fun u hu => htokens u (by simp [hu])) hmore
    intro q hq
    rcases List.mem_append.mp hq with hq | hq
    · exact hparams q hq
    · rw [List.mem_singleton.mp hq]
      exact ⟨by simpa using hkind, htokens p (by simp)⟩
  | case8 => cases h

/-- The parameters of a macro and the variadic one are names. -/
def Named (params : List Token × Option Token) : Prop :=
  (∀ p ∈ params.1, p.Name) ∧ ∀ p, params.2 = some p → p.Name

/-- The parameters of a list are names. -/
theorem reads_parameterList : Reads Named parameterList := by
  have hsome : Reads Named someParameters := by
    refine ⟨?_, fun _ => gives_someParameters.tokens_eq _⟩
    intro c c' params hlexed h
    unfold someParameters at h
    split at h
    · rename_i hparams
      cases h
      exact names_of_parameters (by simp) (fun t ht => hlexed t (List.mem_of_mem_drop ht)) hparams
    · cases h
  refine gives_peek.reads.bind fun next _ => ?_
  split
  · exact .pure ⟨by simp, by simp⟩
  · exact hsome

/-- What a definition begins with makes a macro with plain parameters, whatever its body. -/
theorem reads_macroDefinition : Reads (fun parts => ∀ body, (Macro.ofParts parts.1 parts.2.1 parts.2.2 body).Plain) macroDefinition := by
  have hobject (name : Token) (body : List Token) : (Macro.ofParts name none none body).Plain := Macro.plain_of_object rfl
  refine (gives_any_token _ _).reads.bind fun name _ => gives_atEnd.reads.bind fun done _ => ?_
  split
  · exact .pure (hobject name)
  · refine gives_peek.reads.bind fun next _ => ?_
    split
    · exact .pure (hobject name)
    · refine (gives_any_token _ _).reads.bind fun _ _ => reads_parameterList.bind fun params hparams => ?_
      refine (gives_any_token _ _).reads.bind fun _ _ => .pure fun body => Macro.plain_ofParts ?_ hparams.2
      rintro names ⟨⟩
      exact hparams.1

end Parse

namespace Macro

/-- The body of a definition that has none is lexed. -/
theorem lexed_defaultBody : ∀ t ∈ defaultBody, t.Lexed := by
  intro t ht
  rw [List.mem_singleton.mp ht]
  exact Token.lexed_of_lexeme rfl (by decide) (by decide)

/-- A definition makes a macro with plain parameters and a lexed body. -/
theorem reads_definition : Parse.Reads (fun m : Macro => m.Plain ∧ ∀ t ∈ m.body, t.Lexed) definition := by
  refine Parse.reads_macroDefinition.bind fun parts hparts => Parse.gives_atEnd.reads.bind fun done _ => ?_
  split
  · exact .pure ⟨hparts _, lexed_defaultBody⟩
  · exact (Parse.gives_any_token _ _).reads.bind fun _ _ => Parse.reads_takeRest.bind fun body hbody => .pure ⟨hparts body, hbody⟩

/-- A macro from a definition text has plain parameters and a lexed body. -/
theorem sound_of_ofDefinition {text : String} {m : Macro} (h : ofDefinition text = .ok m) : m.Plain ∧ ∀ t ∈ m.body, t.Lexed := by
  unfold ofDefinition at h
  split at h
  · rename_i hs
    cases h
    exact reads_definition.value_of (fun t => Token.lexed_of_mem) hs
  · cases h

end Macro

/-! ## Directives -/

/-- A directive that defines only a macro with plain parameters and a lexed body, and has only a lexed expression. -/
def Directive.Sound : Directive → Prop
  | .define name params variadic body => (Macro.ofParts name params variadic body).Plain ∧ ∀ t ∈ body, t.Lexed
  | .ifLine expression | .elifLine expression => ∀ t ∈ expression, t.Lexed
  | _ => True

namespace Parse

/-- Every form reads sound directives. -/
theorem reads_forms : ∀ form ∈ forms, Reads Directive.Sound form := by
  have hkeyword (values : List String) : Reads (fun _ => True) (keyword values) := (gives_any_token _ _).reads
  intro form hform
  simp only [forms, List.mem_cons, List.not_mem_nil, or_false] at hform
  rcases hform with rfl | rfl | rfl | rfl | rfl | rfl | rfl | rfl | rfl
  · refine Reads.whole ((hkeyword _).bind fun _ _ => reads_macroDefinition.bind fun parts hparts => ?_) _
    exact reads_takeRest.bind fun body hbody => .pure ⟨hparts body, hbody⟩
  · exact Reads.whole ((hkeyword _).bind fun _ _ => (gives_any_token _ _).reads.bind fun _ _ => .pure trivial) _
  · refine Reads.whole ((hkeyword _).bind fun _ _ => gives_includePath.optional.reads.bind fun found _ => ?_) _
    cases found with
    | some path => exact .pure trivial
    | none =>
      refine reads_takeRest.bind fun body _ => ?_
      split
      · exact (Gives.throw _).reads.bind fun (_ : PUnit) (_ : True) => .pure trivial
      · exact .pure trivial
  · exact Reads.whole ((hkeyword _).bind fun _ _ => (gives_any_token _ _).reads.bind fun _ _ => .pure trivial) _
  · exact Reads.whole ((hkeyword _).bind fun _ _ => reads_expression.bind fun _ htokens => .pure htokens) _
  · exact Reads.whole ((hkeyword _).bind fun _ _ => reads_expression.bind fun _ htokens => .pure htokens) _
  · exact Reads.whole ((hkeyword _).bind fun _ _ => .pure trivial) _
  · exact Reads.whole ((hkeyword _).bind fun _ _ => .pure trivial) _
  · refine (hkeyword _).bind fun _ _ => reads_takeRest.bind fun body _ => .pure ?_
    split <;> trivial

/-- The first form that fits reads what each form reads. -/
theorem reads_firstOf {P : Directive → Prop} {fs : List (Parse Directive)} (hfs : ∀ form ∈ fs, Reads P form) :
    Reads (fun found => ∀ d, found = some d → P d) (firstOf fs) := by
  induction fs with
  | nil => exact .pure (by simp)
  | cons form fs ih =>
    refine (hfs form (by simp)).optional.bind fun found hfound => ?_
    cases found with
    | some d => exact .pure hfound
    | none => exact ih fun f hf => hfs f (List.mem_cons_of_mem _ hf)

theorem reads_note (ns : List Notice) : Reads (fun _ => True) (note ns) :=
  ⟨fun _ _ => trivial, fun _ => rfl⟩

theorem reads_get : Reads (fun _ => True) (get : Parse Cursor) :=
  ⟨fun _ _ => trivial, fun _ => rfl⟩

/-- A directive has what every form gives its directives. -/
theorem reads_directive {P : Directive → Prop} (hforms : ∀ form ∈ forms, Reads P form) (hunrecognized : P .unrecognized) :
    Reads P directive := by
  refine gives_atEnd.reads.bind fun done _ => ?_
  split
  · exact .pure hunrecognized
  · refine (reads_firstOf hforms).bind fun found hfound => ?_
    cases found with
    | some d =>
      have hd : Reads P (pure d : Parse Directive) := .pure (hfound d rfl)
      refine gives_atEnd.reads.bind fun finished _ => ?_
      split
      · exact reads_get.bind fun c _ => (reads_note _).bind fun _ _ => hd
      · exact hd
    | none =>
      refine gives_peek.reads.bind fun name _ => ?_
      split
      · exact (Gives.throw _).reads.bind fun (_ : PUnit) (_ : True) => .pure hunrecognized
      · exact .pure hunrecognized

/-- A directive line reads what each of its forms reads. -/
theorem reads_directiveLine_of {P : Directive → Prop} (hforms : ∀ form ∈ forms, Reads P form) (hunrecognized : P .unrecognized) :
    Reads (fun l => P l.directive) directiveLine := by
  refine (Gives.whole (gives_any_token _ _) _).reads.bind fun _ _ => reads_get.bind fun c _ => ?_
  exact (reads_directive hforms hunrecognized).bind fun d hd => .pure hd

/-- A directive line of lexed tokens says something sound. -/
theorem reads_directiveLine : Reads (fun l => l.directive.Sound) directiveLine :=
  reads_directiveLine_of reads_forms trivial

end Parse

end Prepass
