import Prepass.Directive.Parser
import Prepass.Proofs.Outcome

/-!
# Directives and their keywords

A directive line that is parsed as one of the known forms has a keyword of that form after its number sign
(`Parse.keyword_of_directiveLine`). A line is always parsed when a form of its keyword asks for nothing more
(`Parse.directiveLine_of_form`), as the last branch and the end of a conditional do.
-/

namespace Prepass

/-- The keywords that a directive may begin with. -/
def Directive.keywords : Directive → List String
  | .define .. => ["define"]
  | .undef _ => ["undef"]
  | .inclusion _ => ["include", "import", "include_next"]
  | .ifdef .. => ["ifdef", "ifndef"]
  | .ifLine _ => ["if"]
  | .elifLine _ => ["elif"]
  | .elseLine => ["else"]
  | .endifLine => ["endif"]
  | .pragma _ | .error _ | .warning _ | .lineNumber _ => ["pragma", "error", "warning", "line"]
  | .unrecognized => []

namespace Parse

/-! ## What parsers give -/

/-- A parser that gives only values with a property and leaves the list of tokens alone. -/
structure Gives {α : Type} (P : α → Prop) (p : Parse α) : Prop where
  value_of {c c' : Cursor} {a : α} : p c = .ok a c' → P a
  tokens_eq (c : Cursor) : (stateAfter (p c)).tokens = c.tokens

namespace Gives

variable {α β : Type} {P : β → Prop} {Q : α → Prop} {p : Parse α} {f : α → Parse β}

/-- A value with the property is given without reading. -/
theorem pure {b : β} (h : P b) : Gives P (Pure.pure b : Parse β) := by
  refine ⟨?_, fun _ => rfl⟩
  intro c c' a ha
  cases ha
  exact h

/-- A refusal gives nothing that could lack the property. -/
theorem throw (e : ParseError) : Gives P (throw e : Parse β) :=
  ⟨nofun, fun _ => rfl⟩

/-- A weaker property holds of all values as well. -/
theorem mono {Q' : α → Prop} (h : Gives Q p) (hQ : ∀ a, Q a → Q' a) : Gives Q' p :=
  ⟨fun hp => hQ _ (h.value_of hp), h.tokens_eq⟩

/-- In a row of parsers the last one gives the values, from what those before it have given. -/
theorem bind (hp : Gives Q p) (hf : ∀ a, Q a → Gives P (f a)) : Gives P (p >>= f) := by
  constructor
  · intro c c' b h
    obtain ⟨a, c₁, hs, h⟩ := exists_of_bind_ok h
    exact (hf a (hp.value_of hs)).value_of h
  · intro c
    have htokens := hp.tokens_eq c
    cases hs : p c with
    | ok a c₁ =>
      rw [hs] at htokens
      rw [bind_of_ok hs, (hf a (hp.value_of hs)).tokens_eq]
      exact htokens
    | error e c₁ =>
      rw [hs] at htokens
      rw [bind_of_error hs]
      exact htokens

/-- Asking that all tokens are read keeps the property. -/
theorem whole (hp : Gives Q p) (e : ParseError) : Gives Q (whole p e) := by
  constructor
  · intro c c' a h
    unfold Parse.whole at h
    split at h
    · rename_i hs
      cases h
      exact hp.value_of hs
    · nomatch h
  · intro c
    have htokens := hp.tokens_eq c
    unfold Parse.whole
    split <;> (rename_i hs; rw [hs] at htokens; exact htokens)

/-- Where a refusal is no value, the values that there are have the property. -/
theorem optional (hp : Gives Q p) : Gives (fun o => ∀ a, o = some a → Q a) (optional p) := by
  constructor
  · intro c c' o h
    unfold Parse.optional at h
    split at h
    · rename_i hs
      cases h
      intro a ha
      cases ha
      exact hp.value_of hs
    · cases h
      nofun
  · intro c
    have htokens := hp.tokens_eq c
    unfold Parse.optional
    split <;> (rename_i hs; rw [hs] at htokens; exact htokens)

end Gives

/-- A token that is read has passed the test for it. -/
theorem gives_token (test : Token → Bool) (e : ParseError) : Gives (fun t => test t = true) (token test e) := by
  constructor
  · intro c c' t h
    unfold token at h
    split at h
    · split at h
      · rename_i htest
        cases h
        exact htest
      · nomatch h
    · nomatch h
  · intro c
    unfold token
    split
    · split <;> rfl
    · rfl

theorem gives_any_token (test : Token → Bool) (e : ParseError) : Gives (fun _ => True) (token test e) :=
  (gives_token test e).mono fun _ _ => trivial

/-- Taking up the rest leaves the list of tokens alone. -/
theorem gives_takeRest : Gives (fun _ => True) takeRest :=
  ⟨fun _ => trivial, fun _ => rfl⟩

/-- Looking at the next token leaves the list of tokens alone. -/
theorem gives_peek : Gives (fun _ => True) peek := by
  refine ⟨fun _ => trivial, fun c => ?_⟩
  unfold peek
  split <;> rfl

theorem gives_atEnd : Gives (fun _ => True) atEnd :=
  ⟨fun _ => trivial, fun _ => rfl⟩

/-- Checking a path leaves the list of tokens alone. -/
theorem gives_checkPath (path : String) : Gives (fun _ => True) (checkPath path) :=
  ⟨fun _ => trivial, fun _ => rfl⟩

/-- Reading parameters leaves the list of tokens alone. -/
theorem gives_someParameters : Gives (fun _ => True) someParameters := by
  refine ⟨fun _ => trivial, fun c => ?_⟩
  unfold someParameters
  split <;> rfl

/-- Reading a list of parameters leaves the list of tokens alone. -/
theorem gives_parameterList : Gives (fun _ => True) parameterList := by
  refine gives_peek.bind fun next _ => ?_
  split
  · exact .pure trivial
  · exact gives_someParameters

/-- Reading the name and the parameters of a macro leaves the list of tokens alone. -/
theorem gives_macroDefinition : Gives (fun _ => True) macroDefinition := by
  refine (gives_any_token _ _).bind fun name _ => gives_atEnd.bind fun done _ => ?_
  split
  · exact .pure trivial
  · refine gives_peek.bind fun next _ => ?_
    split
    · exact .pure trivial
    · exact (gives_any_token _ _).bind fun _ _ => gives_parameterList.bind fun _ _ =>
        (gives_any_token _ _).bind fun _ _ => .pure trivial

theorem gives_insideAngles : Gives (fun _ => True) insideAngles :=
  ⟨fun _ => trivial, fun _ => rfl⟩

/-- Reading a path between angle brackets leaves the list of tokens alone. -/
theorem gives_systemPath : Gives (fun _ => True) systemPath := by
  refine (gives_any_token _ _).bind fun _ _ => gives_insideAngles.bind fun inside _ => ?_
  exact (gives_any_token _ _).bind fun _ _ => (gives_checkPath _).bind fun _ _ => .pure trivial

/-- Reading a path between quotes leaves the list of tokens alone. -/
theorem gives_localPath : Gives (fun _ => True) localPath := by
  refine (gives_any_token _ _).bind fun literal _ => ?_
  split
  · exact .pure trivial
  · exact (gives_checkPath _).bind fun _ _ => .pure trivial

/-- Reading an include path leaves the list of tokens alone. -/
theorem gives_includePath : Gives (fun _ => True) includePath := by
  refine Gives.whole (gives_systemPath.optional.bind fun found _ => ?_) _
  split
  · exact .pure trivial
  · refine gives_localPath.optional.bind fun found _ => ?_
    split
    · exact .pure trivial
    · exact .throw _

/-! ## Forms -/

/-- A form whose directives begin with the token at the place, which is a keyword of theirs. -/
structure Keyed (form : Parse Directive) : Prop where
  keyword_of {c c' : Cursor} {d : Directive} :
    form c = .ok d c' → ∃ t, c.peek? = some t ∧ t.kind = .identifier ∧ t.value ∈ d.keywords
  tokens_eq (c : Cursor) : (stateAfter (form c)).tokens = c.tokens

/-- A keyword that is read was the identifier at the place. -/
theorem peek_of_keyword {values : List String} {c c' : Cursor} {t : Token} (h : keyword values c = .ok t c') :
    c.peek? = some t ∧ t.kind = .identifier ∧ t.value ∈ values := by
  unfold keyword token at h
  split at h
  · rename_i hpeek
    split at h
    · rename_i htest
      cases h
      exact ⟨hpeek, by simpa using htest⟩
    · nomatch h
  · nomatch h

/-- A keyword followed by something that gives directives of it makes a form. -/
theorem keyed_of_gives {values : List String} {rest : Token → Parse Directive}
    (h : ∀ t, t.value ∈ values → Gives (fun d => t.value ∈ d.keywords) (rest t)) : Keyed (keyword values >>= rest) := by
  constructor
  · intro c c' d hd
    obtain ⟨t, c₁, hs, hd⟩ := exists_of_bind_ok hd
    obtain ⟨hpeek, hkind, hvalue⟩ := peek_of_keyword hs
    exact ⟨t, hpeek, hkind, (h t hvalue).value_of hd⟩
  · intro c
    have hkeyword : Gives (fun t => t.value ∈ values) (keyword values) :=
      (gives_token _ _).mono fun t ht => by simp at ht; exact ht.2
    have hrest (t : Token) (ht : t.value ∈ values) : Gives (fun _ => True) (rest t) := (h t ht).mono fun _ _ => trivial
    exact (hkeyword.bind hrest).tokens_eq c

/-- A form still begins with its keyword when all tokens have to be read. -/
theorem Keyed.whole {form : Parse Directive} (h : Keyed form) (e : ParseError) : Keyed (Parse.whole form e) := by
  refine ⟨?_, (Gives.whole ⟨fun _ => trivial, h.tokens_eq⟩ e : Gives (fun _ => True) _).tokens_eq⟩
  intro c c' d hd
  unfold Parse.whole at hd
  split at hd
  · rename_i hs
    cases hd
    exact h.keyword_of hs
  · nomatch hd

/-- Reading an expression leaves the list of tokens alone. -/
theorem gives_expression : Gives (fun _ => True) expression := by
  refine gives_takeRest.bind fun tokens _ => ?_
  split
  · exact (Gives.throw _).bind fun (_ : PUnit) (_ : True) => .pure trivial
  · exact .pure trivial

/-- An include directive begins with one of its keywords, whether its path is written out or computed. -/
theorem keyed_inclusion : Keyed inclusion := by
  refine Keyed.whole (keyed_of_gives fun t ht => ?_) _
  refine gives_includePath.optional.bind fun found _ => ?_
  cases found with
  | some path => exact .pure ht
  | none =>
    refine gives_takeRest.bind fun body _ => ?_
    split
    · exact (Gives.throw _).bind fun (_ : PUnit) (_ : True) => .pure ht
    · exact .pure ht

/-- Every form begins with a keyword of the directive it gives. -/
theorem keyed_forms : ∀ form ∈ forms, Keyed form := by
  intro form hform
  simp only [forms, List.mem_cons, List.not_mem_nil, or_false] at hform
  rcases hform with rfl | rfl | rfl | rfl | rfl | rfl | rfl | rfl | rfl
  · refine Keyed.whole (keyed_of_gives fun t ht => ?_) _
    exact gives_macroDefinition.bind fun _ _ => gives_takeRest.bind fun _ _ => .pure ht
  · refine Keyed.whole (keyed_of_gives fun t ht => ?_) _
    exact (gives_any_token _ _).bind fun _ _ => .pure ht
  · exact keyed_inclusion
  · refine Keyed.whole (keyed_of_gives fun t ht => ?_) _
    exact (gives_any_token _ _).bind fun _ _ => .pure ht
  · refine Keyed.whole (keyed_of_gives fun t ht => ?_) _
    exact gives_expression.bind fun _ _ => .pure ht
  · refine Keyed.whole (keyed_of_gives fun t ht => ?_) _
    exact gives_expression.bind fun _ _ => .pure ht
  · refine Keyed.whole (keyed_of_gives fun t ht => ?_) _
    exact .pure ht
  · refine Keyed.whole (keyed_of_gives fun t ht => ?_) _
    exact .pure ht
  · refine keyed_of_gives fun t ht => gives_takeRest.bind fun body _ => .pure ?_
    split <;> exact ht

/-- Trying forms one after another gives the directive of one of them, or every form was refused at the same place. -/
theorem firstOf_cases {fs : List (Parse Directive)} (hfs : ∀ form ∈ fs, Keyed form) (c : Cursor) :
    (∃ d c' t, firstOf fs c = .ok (some d) c' ∧ c.peek? = some t ∧ t.kind = .identifier ∧ t.value ∈ d.keywords) ∨
    (∃ c', firstOf fs c = .ok none c' ∧ c'.peek? = c.peek? ∧
      ∀ form ∈ fs, ∃ c₁, c₁.peek? = c.peek? ∧ ∀ d c₂, form c₁ ≠ .ok d c₂) := by
  induction fs generalizing c with
  | nil => exact .inr ⟨c, rfl, rfl, by simp⟩
  | cons form fs ih =>
    have hform := hfs form (by simp)
    have htokens := hform.tokens_eq c
    cases hs : form c with
    | ok d c' =>
      have hopt : optional form c = .ok (some d) c' := by simp [optional, hs]
      obtain ⟨t, hpeek, hkind, hvalue⟩ := hform.keyword_of hs
      refine .inl ⟨d, c', t, ?_, hpeek, hkind, hvalue⟩
      rw [firstOf, bind_of_ok hopt]
      rfl
    | error e c' =>
      rw [hs, stateAfter_error] at htokens
      have hopt : optional form c = .ok none { c' with pos := c.pos } := by simp [optional, hs]
      have hsame : ({ c' with pos := c.pos } : Cursor).peek? = c.peek? := by simp [Cursor.peek?, htokens]
      have hfirst : firstOf (form :: fs) c = firstOf fs { c' with pos := c.pos } := by
        rw [firstOf, bind_of_ok hopt]
      have hmore := ih (fun f hf => hfs f (List.mem_cons_of_mem _ hf)) { c' with pos := c.pos }
      rw [hsame] at hmore
      rcases hmore with ⟨d, c'', t, hfound, hpeek⟩ | ⟨c'', hnone, hpeek, hrest⟩
      · exact .inl ⟨d, c'', t, hfirst.trans hfound, hpeek⟩
      · refine .inr ⟨c'', hfirst.trans hnone, hpeek, ?_⟩
        intro f hf
        rcases List.mem_cons.mp hf with rfl | hf
        · exact ⟨c, rfl, fun d c₂ hok => by rw [hs] at hok; nomatch hok⟩
        · exact hrest f hf

/-! ## Directive lines -/

/-- Where a token is, the end is not. -/
theorem atEnd_eq_false {c : Cursor} {t : Token} (h : c.peek? = some t) : c.atEnd = false := by
  obtain ⟨hlt, -⟩ := List.getElem?_eq_some_iff.mp h
  simp only [Cursor.atEnd, decide_eq_false_iff_not, Nat.not_le]
  exact hlt

/-- A form that is not refused decides what the directive is. -/
theorem directive_of_firstOf {c c' : Cursor} {d : Directive} (hend : c.atEnd = false) (h : firstOf forms c = .ok (some d) c') :
    ∃ c'', directive c = .ok d c'' := by
  unfold directive
  rw [bind_of_ok (rfl : atEnd c = .ok c.atEnd c), hend]
  dsimp only
  rw [if_neg (by simp), bind_of_ok h]
  dsimp only
  rw [bind_of_ok (rfl : atEnd c' = .ok c'.atEnd c')]
  cases c'.atEnd with
  | true => exact ⟨_, rfl⟩
  | false => exact ⟨_, rfl⟩

/-- A directive begins with a keyword of it, or it is an unknown one without any of the known keywords. -/
theorem keyword_of_directive {c c' : Cursor} {d : Directive} (h : directive c = .ok d c') :
    (∃ t, c.peek? = some t ∧ t.kind = .identifier ∧ t.value ∈ d.keywords) ∨
      (d = .unrecognized ∧ ∀ t, c.peek? = some t → ¬(t.kind = .identifier ∧ t.value ∈ keywords)) := by
  cases hpeek : c.peek? with
  | none =>
    have hend : c.atEnd = true := by
      simp only [Cursor.atEnd, decide_eq_true_eq]
      exact List.getElem?_eq_none_iff.mp hpeek
    unfold directive at h
    rw [bind_of_ok (rfl : atEnd c = .ok c.atEnd c), hend] at h
    cases h
    exact .inr ⟨rfl, nofun⟩
  | some t =>
    have hend := atEnd_eq_false hpeek
    rcases firstOf_cases keyed_forms c with ⟨d', c₁, t', hfirst, hpeek', hkey⟩ | ⟨c₁, hfirst, hpeek', -⟩
    · obtain ⟨c₂, hd⟩ := directive_of_firstOf hend hfirst
      cases hd.symm.trans h
      exact .inl ⟨t', hpeek.symm.trans hpeek', hkey⟩
    · have hpeek₁ : peek c₁ = .ok t c₁ := by simp only [peek, hpeek'.trans hpeek]
      unfold directive at h
      rw [bind_of_ok (rfl : atEnd c = .ok c.atEnd c), hend] at h
      dsimp only at h
      rw [if_neg (by simp), bind_of_ok hfirst] at h
      dsimp only at h
      rw [bind_of_ok hpeek₁] at h
      split at h
      · nomatch h
      · rename_i hunknown
        cases h
        refine .inr ⟨rfl, ?_⟩
        intro t' ht'
        cases ht'
        exact hunknown

/-- A directive line after its number sign is a directive. -/
theorem directiveLine_eq {hash : Token} {rest : List Token} (hkind : hash.kind = .punctuator) (hvalue : hash.value = "#") :
    directiveLine { tokens := hash :: rest } =
      (do return ⟨hash :: rest, ← directive⟩ : Parse DirectiveLine) { tokens := hash :: rest, pos := 1 } := by
  have hsign : whole (value "#") .notDirective { tokens := hash :: rest } = .ok hash { tokens := hash :: rest, pos := 1 } := by
    simp [whole, value, token, Cursor.peek?, Cursor.advance, hkind, hvalue]
  unfold directiveLine
  rw [bind_of_ok hsign]
  rfl

/-- What a directive line says has its keyword right after the number sign, or it is unknown and none of the known keywords is there. -/
theorem keyword_of_directiveLine {hash : Token} {rest : List Token} {l : DirectiveLine} {c : Cursor}
    (hkind : hash.kind = .punctuator) (hvalue : hash.value = "#") (h : directiveLine { tokens := hash :: rest } = .ok l c) :
    (∃ t, rest.head? = some t ∧ t.kind = .identifier ∧ t.value ∈ l.directive.keywords) ∨
      (l.directive = .unrecognized ∧ ∀ t, rest.head? = some t → ¬(t.kind = .identifier ∧ t.value ∈ keywords)) := by
  rw [directiveLine_eq hkind hvalue] at h
  have hpeek : ({ tokens := hash :: rest, pos := 1 } : Cursor).peek? = rest.head? := by cases rest <;> rfl
  obtain ⟨d, c', hd, h⟩ := exists_of_bind_ok h
  cases h
  have hkey := keyword_of_directive hd
  rwa [hpeek] at hkey

/-- A directive line is parsed when a form of its keyword asks for nothing more. -/
theorem directiveLine_of_form {hash t : Token} {rest : List Token} (hkind : hash.kind = .punctuator) (hvalue : hash.value = "#")
    (hhead : rest.head? = some t) {form : Parse Directive} (hmem : form ∈ forms)
    (hform : ∀ c, c.peek? = some t → ∃ d c', form c = .ok d c') :
    ∃ l c, directiveLine { tokens := hash :: rest } = .ok l c := by
  rw [directiveLine_eq hkind hvalue]
  have hpeek : ({ tokens := hash :: rest, pos := 1 } : Cursor).peek? = some t := by
    rw [← hhead]
    cases rest <;> rfl
  rcases firstOf_cases keyed_forms { tokens := hash :: rest, pos := 1 } with ⟨d, c₁, t', hfirst, -⟩ | ⟨c₁, -, -, hnone⟩
  · obtain ⟨c₂, hd⟩ := directive_of_firstOf (atEnd_eq_false hpeek) hfirst
    exact ⟨⟨hash :: rest, d⟩, c₂, by rw [bind_of_ok hd]; rfl⟩
  · obtain ⟨c₂, hpeek₂, hrefused⟩ := hnone form hmem
    obtain ⟨d, c', hok⟩ := hform c₂ (hpeek₂.trans hpeek)
    exact absurd hok (hrefused d c')

/-- At its keyword an else directive is read. -/
theorem elseLine_of_peek {c : Cursor} {t : Token} (hpeek : c.peek? = some t) (hkind : t.kind = .identifier)
    (hvalue : t.value = "else") : elseLine c = .ok .elseLine (c.advance 1) := by
  have hkey : keyword ["else"] c = .ok t (c.advance 1) := by simp [keyword, token, hpeek, hkind, hvalue]
  unfold elseLine whole
  rw [bind_of_ok hkey]
  rfl

/-- At its keyword an endif directive is read. -/
theorem endifLine_of_peek {c : Cursor} {t : Token} (hpeek : c.peek? = some t) (hkind : t.kind = .identifier)
    (hvalue : t.value = "endif") : endifLine c = .ok .endifLine (c.advance 1) := by
  have hkey : keyword ["endif"] c = .ok t (c.advance 1) := by simp [keyword, token, hpeek, hkind, hvalue]
  unfold endifLine whole
  rw [bind_of_ok hkey]
  rfl

end Parse

end Prepass
