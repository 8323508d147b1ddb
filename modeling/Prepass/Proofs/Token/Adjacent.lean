import Mathlib
import Prepass.Proofs.Token.Respelling

/-!
# Lexemes next to each other

Where no blank stands between two lexemes, what the first of them ends with and the second begins with decides whether they stay apart. An
identifier ends before a character that is neither part of an identifier nor a quote (`Lexer.IsIdentifier.starts`). A parenthesis or a comma
is a lexeme of its own before anything (`Lexer.starts_separator`), and every lexeme but a lone quote ends before one
(`Lexer.Starts.before_separator`). An equals sign stays apart from all but another equals sign.
-/

namespace Prepass

namespace Lexer

section

variable {line column : Int} {uri : String} {spaced : Bool} {cs : List Char}

/-- A text without tokens has nothing but blanks. -/
theorem isBlank_of_scan_nil (h : scan line uri column spaced cs = []) : ∀ c ∈ cs, Text.isBlank c = true := by
  induction cs using reading_induction generalizing column spaced with
  | nil => exact fun c hc => absurd hc List.not_mem_nil
  | blank c rest hc ih =>
    rw [scan_blank hc] at h
    exact List.forall_mem_cons.mpr ⟨hc, ih h⟩
  | lexeme v tail kind hstarts ih =>
    rw [hstarts.scan_eq] at h
    cases h

/-- The first token of a text is a lexeme after blanks, and the other tokens are those of what follows. -/
theorem exists_of_scan_cons {t : Token} {ts : List Token} (h : scan line uri column spaced cs = t :: ts) :
    ∃ blanks tail column', cs = blanks ++ (t.value.toList ++ tail) ∧ (∀ c ∈ blanks, Text.isBlank c = true) ∧
      Starts t.value.toList tail t.kind ∧ scan line uri column' false tail = ts := by
  induction cs using reading_induction generalizing column spaced with
  | nil =>
    rw [scan_nil] at h
    cases h
  | blank c rest hc ih =>
    rw [scan_blank hc] at h
    obtain ⟨blanks, tail, column', rfl, hblanks, hstarts, hts⟩ := ih h
    exact ⟨c :: blanks, tail, column', rfl, List.forall_mem_cons.mpr ⟨hc, hblanks⟩, hstarts, hts⟩
  | lexeme v tail kind hstarts ih =>
    rw [hstarts.scan_eq] at h
    cases h
    rw [String.toList_ofList]
    exact ⟨[], tail, column + v.length, rfl, by simp, hstarts, rfl⟩

end

/-! ## Identifiers -/

/-- After its first character, the mark of a character constant goes on as an identifier does, up to the apostrophe. -/
theorem part_of_mem_characterMarks : ∀ mark ∈ [] :: characterMarks, ∀ c ∈ (mark ++ [Text.apostrophe]).tail,
    isIdentifierPart c = true ∨ c = Text.apostrophe := by
  have hall : (([] :: characterMarks).all fun mark => (mark ++ [Text.apostrophe]).tail.all fun c =>
      isIdentifierPart c || c == Text.apostrophe) = true := by decide
  simpa only [List.all_eq_true, Bool.or_eq_true, beq_iff_eq] using hall

/-- After its first character, the mark of a string constant goes on as an identifier does, up to the quote. -/
theorem part_of_mem_stringMarks : ∀ mark ∈ [] :: stringMarks, ∀ c ∈ (mark ++ ['"']).tail, isIdentifierPart c = true ∨ c = '"' := by
  have hall : (([] :: stringMarks).all fun mark => (mark ++ ['"']).tail.all fun c => isIdentifierPart c || c == '"') = true := by decide
  simpa only [List.all_eq_true, Bool.or_eq_true, beq_iff_eq] using hall

/-- An identifier is not the mark of a literal when what follows it neither goes on with it nor is a quote. -/
theorem literal?_identifier {quote : Char} {marks : List (List Char)} (hmarks : ∀ mark ∈ marks, quote ∉ mark)
    (hpart : ∀ mark ∈ [] :: marks, ∀ c ∈ (mark ++ [quote]).tail, isIdentifierPart c = true ∨ c = quote) {v tail : List Char}
    (hv : v ≠ []) (hquote : quote ∉ v) (htail : ∀ c ∈ tail.head?, isIdentifierPart c = false ∧ c ≠ quote) :
    literal? quote marks (v ++ tail) = none := by
  cases hliteral : literal? quote marks (v ++ tail) with
  | none => rfl
  | some n =>
    obtain ⟨mark, rest, m, hmark, hcs, -, -⟩ := (literal?_eq_some_iff hmarks).mp hliteral
    have hinitial : mark ++ [quote] <+: v ++ tail := ⟨rest, by rw [hcs]; simp⟩
    rcases List.prefix_or_prefix_of_prefix hinitial (List.prefix_append v tail) with hle | ⟨more, hmore⟩
    · exact absurd (hle.subset (by simp)) hquote
    · rw [← hmore] at hinitial
      have hfirst := (List.prefix_append_right_inj v).mp hinitial
      cases more with
      | nil =>
        rw [List.append_nil] at hmore
        exact absurd (by simp [hmore]) hquote
      | cons d more =>
        obtain ⟨after, rfl⟩ := hfirst
        obtain ⟨hnot, hne⟩ := htail d rfl
        have hmem : d ∈ (mark ++ [quote]).tail := by
          rw [← hmore, List.tail_append_of_ne_nil hv]
          simp
        rcases hpart mark hmark d hmem with hyes | heq
        · rw [hyes] at hnot
          cases hnot
        · exact absurd heq hne

/-- An identifier ends before a character that is neither part of an identifier nor a quote. -/
theorem IsIdentifier.starts {v tail : List Char} (h : IsIdentifier v)
    (htail : ∀ c ∈ tail.head?, isIdentifierPart c = false ∧ c ≠ Text.apostrophe ∧ c ≠ '"') : Starts v tail .identifier := by
  have hpart := h.all_part
  have hquote {quote : Char} (hnot : isIdentifierPart quote = false) : quote ∉ v := fun hmem => by
    rw [hpart quote hmem] at hnot
    cases hnot
  cases v with
  | nil => exact h.elim
  | cons c v =>
    obtain ⟨hstart, hdigit, hrest⟩ := h
    have hperiod : c ≠ '.' := by
      rintro rfl
      revert hstart
      decide
    have hcharacter : literal? Text.apostrophe characterMarks (c :: v ++ tail) = none :=
      literal?_identifier apostrophe_notMem_characterMarks part_of_mem_characterMarks (List.cons_ne_nil c v) (hquote (by decide))
        fun d hd => ⟨(htail d hd).1, (htail d hd).2.1⟩
    have hstring : literal? '"' stringMarks (c :: v ++ tail) = none :=
      literal?_identifier quote_notMem_stringMarks part_of_mem_stringMarks (List.cons_ne_nil c v) (hquote (by decide))
        fun d hd => ⟨(htail d hd).1, (htail d hd).2.2⟩
    refine ⟨List.cons_ne_nil c v, ?_, .identifier ?_ hcharacter hstring ?_⟩
    · rintro _ ⟨⟩
      exact isBlank_of_isIdentifierPart (isIdentifierPart_of_start hstart)
    · rw [List.cons_append, number?_cons hperiod, hdigit]
      rfl
    · rw [List.cons_append, identifier?, if_pos hstart, length_takeWhile_append_iff.mpr ⟨hrest, fun d hd => (htail d hd).1⟩]
      rfl

/-! ## Punctuators -/

/-- A punctuator that begins no longer one stands alone. -/
theorem punctuatorLength_eq_one {cs : List Char} (h : ∀ p ∈ longPunctuators, ¬p <+: cs) : punctuatorLength cs = 1 := by
  have hfind : longPunctuators.find? (·.isPrefixOf cs) = none :=
    List.find?_eq_none.mpr fun p hp hinitial => h p hp (List.isPrefixOf_iff_prefix.mp hinitial)
  rw [punctuatorLength, hfind]
  rfl

/-- A punctuator of more than one character begins with the character that the text begins with. -/
theorem head?_of_longPunctuator {p : List Char} (hp : p ∈ longPunctuators) {c : Char} {rest : List Char} (h : p <+: c :: rest) :
    p.head? = some c := by
  have hne : ∀ p ∈ longPunctuators, p ≠ [] := by decide
  obtain ⟨d, more, rfl⟩ := List.exists_cons_of_ne_nil (hne p hp)
  rw [(List.cons_prefix_cons.mp h).1]
  rfl

/-- A punctuator that begins with no digit, period, quote, mark of a literal or character of an identifier. -/
theorem starts_punctuator {c : Char} {v tail : List Char} (hblank : Text.isBlank c = false) (hdigit : Text.isDigit c = false)
    (hmark : c ∉ ['.', 'u', 'U', 'L', '@', '"', Text.apostrophe]) (hstart : isIdentifierStart c = false)
    (hlength : punctuatorLength (c :: v ++ tail) = v.length + 1) : Starts (c :: v) tail .punctuator := by
  have hfinds := finds_lexeme (c :: (v ++ tail))
  rw [lexeme_kind _ hdigit hmark, hstart] at hfinds
  refine ⟨List.cons_ne_nil c v, ?_, ?_⟩
  · rintro _ ⟨⟩
    exact hblank
  · rw [List.length_cons, ← hlength]
    generalize (lexeme (c :: (v ++ tail))).2 = n at hfinds
    cases hfinds with
    | punctuator hnumber hcharacter hstring hidentifier => exact .punctuator hnumber hcharacter hstring hidentifier

/-- The characters that are lexemes of their own wherever they stand. -/
def separators : List Char :=
  ['(', ')', ',']

/-- No longer punctuator has a separator in it. -/
theorem notMem_longPunctuators_of_separator : ∀ c ∈ separators, ∀ p ∈ longPunctuators, c ∉ p := by
  have hall : (separators.all fun c => longPunctuators.all fun p => !p.contains c) = true := by decide
  simpa using hall

/-- A separator is no part of any lexeme but its own. -/
theorem plain_of_separator : ∀ c ∈ separators, Text.isBlank c = false ∧ Text.isDigit c = false ∧ isIdentifierPart c = false ∧
    isNumberPart c = false ∧ isSign c = false ∧ c ∉ ['.', 'u', 'U', 'L', '@', '"', Text.apostrophe] := by
  have hall : (separators.all fun c => decide (Text.isBlank c = false ∧ Text.isDigit c = false ∧ isIdentifierPart c = false ∧
      isNumberPart c = false ∧ isSign c = false ∧ c ∉ ['.', 'u', 'U', 'L', '@', '"', Text.apostrophe])) = true := by decide
  exact fun c hc => of_decide_eq_true (List.all_eq_true.mp hall c hc)

/-- No mark of a constant has a separator in it. -/
theorem notMem_marks_of_separator : ∀ c ∈ separators, (∀ mark ∈ [] :: characterMarks, c ∉ mark ++ [Text.apostrophe]) ∧
    ∀ mark ∈ [] :: stringMarks, c ∉ mark ++ ['"'] := by
  have hall : (separators.all fun c => (([] :: characterMarks).all fun mark => !(mark ++ [Text.apostrophe]).contains c) &&
      ([] :: stringMarks).all fun mark => !(mark ++ ['"']).contains c) = true := by decide
  simpa only [List.all_eq_true, Bool.and_eq_true, Bool.not_eq_true', List.contains_eq_mem, decide_eq_false_iff_not] using hall

/-- A separator is a lexeme of its own before anything. -/
theorem starts_separator {c : Char} (hc : c ∈ separators) (tail : List Char) : Starts [c] tail .punctuator := by
  obtain ⟨hblank, hdigit, hpart, -, -, hmark⟩ := plain_of_separator c hc
  have hstart : isIdentifierStart c = false := Bool.eq_false_iff.mpr fun h => by
    rw [isIdentifierPart_of_start h] at hpart
    cases hpart
  refine starts_punctuator hblank hdigit hmark hstart (punctuatorLength_eq_one fun p hp hinitial => ?_)
  exact notMem_longPunctuators_of_separator c hc p hp (List.mem_of_mem_head? (head?_of_longPunctuator hp hinitial))

/-- An equals sign stays apart from what does not begin with another one. -/
theorem starts_equals {tail : List Char} (htail : ∀ c ∈ tail.head?, c ≠ '=') : Starts ['='] tail .punctuator := by
  have hlong : ∀ p ∈ longPunctuators, p.head? = some '=' → p = ['=', '='] := by decide
  refine starts_punctuator (by decide) (by decide) (by decide) (by decide) (punctuatorLength_eq_one fun p hp hinitial => ?_)
  obtain rfl := hlong p hp (head?_of_longPunctuator hp hinitial)
  obtain ⟨rest, rfl⟩ : ['='] <+: tail := (List.cons_prefix_cons.mp hinitial).2
  exact htail '=' rfl rfl

theorem starts_twoEquals (tail : List Char) : Starts ['=', '='] tail .punctuator :=
  starts_punctuator (by decide) (by decide) (by decide) (by decide) rfl

theorem starts_ellipsis (tail : List Char) : Starts ['.', '.', '.'] tail .punctuator :=
  ⟨by decide, by rintro _ ⟨⟩; decide, .punctuator rfl rfl rfl rfl⟩

/-! ## Lexemes before separators -/

/-- What a text begins with, without a character in it, it begins with before that character. -/
theorem prefix_before {c : Char} {run v tail : List Char} (hrun : c ∉ run) (h : run <+: v ++ c :: tail) : run <+: v := by
  rcases List.prefix_or_prefix_of_prefix h (List.prefix_append v (c :: tail)) with hle | ⟨more, rfl⟩
  · exact hle
  · cases more with
    | nil => rw [List.append_nil]
    | cons d more =>
      obtain ⟨rfl, -⟩ := List.cons_prefix_cons.mp ((List.prefix_append_right_inj v).mp h)
      exact absurd (by simp) hrun

section

variable {c : Char} (hc : c ∈ separators) {v : List Char}
include hc

/-- A number that ends with a text ends there before a separator as well. -/
theorem numberTail_before_separator (h : numberTail v = v.length) (tail : List Char) : numberTail (v ++ c :: tail) = v.length := by
  obtain ⟨-, -, -, hpart, hsign, -⟩ := plain_of_separator c hc
  have hzero : numberTail (c :: tail) = 0 := numberTail_eq_zero_iff.mpr (by rintro _ ⟨⟩; exact hpart)
  induction v using numberTail.induct with
  | case1 => exact hzero
  | case2 d hd =>
    have hnone : ∀ e ∈ (c :: tail).head?, (isExponent d && isSign e) = false := by
      rintro _ ⟨⟩
      rw [hsign, Bool.and_false]
    rw [List.singleton_append, numberTail_part hnone, if_pos hd, hzero]
    rfl
  | case3 d hd =>
    rw [numberTail, if_neg hd] at h
    cases h
  | case4 d e rest hexponent ih =>
    rw [List.cons_append, List.cons_append, numberTail_exponent hexponent]
    rw [numberTail_exponent hexponent] at h
    rw [ih (by simpa using h)]
    rfl
  | case5 d e rest hexponent hd ih =>
    have hnone (more : List Char) : ∀ f ∈ (e :: more).head?, (isExponent d && isSign f) = false := by simpa using hexponent
    rw [numberTail_part (hnone _), if_pos hd] at h
    rw [List.cons_append, List.cons_append, numberTail_part (hnone _), if_pos hd, ← List.cons_append, ih (by simpa using h)]
    rfl
  | case6 d e rest hexponent hd =>
    have hnone : ∀ f ∈ (e :: rest).head?, (isExponent d && isSign f) = false := by simpa using hexponent
    rw [numberTail_part hnone, if_neg hd] at h
    cases h

/-- Whether a text is a number does not depend on a separator after it. -/
theorem number?_before_separator (hv : v ≠ []) (h : number? v = some v.length ∨ number? v = none) (tail : List Char) :
    number? (v ++ c :: tail) = number? v := by
  obtain ⟨-, hdigit, -, -, -, hmark⟩ := plain_of_separator c hc
  cases v with
  | nil => exact absurd rfl hv
  | cons d v =>
    by_cases hd : d = '.'
    · subst hd
      cases v with
      | nil =>
        rw [List.singleton_append, number?_period, hdigit]
        rfl
      | cons e v =>
        rw [number?_period] at h
        rw [List.cons_append, List.cons_append, number?_period, number?_period]
        split at h
        · rename_i he
          have hlength : numberTail v = v.length := by simpa using h
          rw [if_pos he, if_pos he, numberTail_before_separator hc hlength, hlength]
        · rename_i he
          rw [if_neg he, if_neg he]
    · rw [number?_cons hd] at h
      rw [List.cons_append, number?_cons hd, number?_cons hd]
      split at h
      · rename_i he
        have hlength : numberTail v = v.length := by simpa using h
        rw [if_pos he, if_pos he, numberTail_before_separator hc hlength, hlength]
      · rename_i he
        rw [if_neg he, if_neg he]

/-- A separator after a text makes no punctuator longer. -/
theorem punctuatorLength_before_separator (tail : List Char) : punctuatorLength (v ++ c :: tail) = punctuatorLength v := by
  have hsame : longPunctuators.find? (·.isPrefixOf (v ++ c :: tail)) = longPunctuators.find? (·.isPrefixOf v) := by
    refine List.find?_congr fun p hp => ?_
    rw [Bool.eq_iff_iff, List.isPrefixOf_iff_prefix, List.isPrefixOf_iff_prefix]
    exact ⟨prefix_before (notMem_longPunctuators_of_separator c hc p hp), fun h => h.trans (List.prefix_append v _)⟩
  rw [punctuatorLength, punctuatorLength, hsame]

omit hc in
/-- No literal begins before a character unless it begins in what stands before that character. -/
theorem literal?_before {quote : Char} {marks : List (List Char)} (hmarks : ∀ mark ∈ marks, quote ∉ mark)
    (hplain : ∀ mark ∈ [] :: marks, c ∉ mark ++ [quote]) (h : ∀ mark ∈ [] :: marks, ¬mark ++ [quote] <+: v) (tail : List Char) :
    literal? quote marks (v ++ c :: tail) = none := by
  cases hliteral : literal? quote marks (v ++ c :: tail) with
  | none => rfl
  | some n =>
    obtain ⟨mark, rest, m, hmark, hcs, -, -⟩ := (literal?_eq_some_iff hmarks).mp hliteral
    have hinitial : mark ++ [quote] <+: v ++ c :: tail := ⟨rest, by rw [hcs]; simp⟩
    exact absurd (prefix_before (hplain mark hmark) hinitial) (h mark hmark)

/-- A lexeme is found again before a separator, unless it is a quote that stands alone. -/
theorem Starts.before_separator {tail : List Char} {kind : Token.Kind} (h : Starts v tail kind)
    (hlone : kind = .punctuator → v ∉ [[Text.apostrophe], ['"']]) (tail' : List Char) : Starts v (c :: tail') kind := by
  obtain ⟨hcharacterMarks, hstringMarks⟩ := notMem_marks_of_separator c hc
  have hcharacter (hkind : kind ∈ [.stringLiteral, .identifier, .punctuator]) :
      literal? Text.apostrophe characterMarks (v ++ c :: tail') = none :=
    literal?_before apostrophe_notMem_characterMarks hcharacterMarks (fun _ hmark => h.not_character hlone hkind hmark) tail'
  have hstring (hkind : kind ∈ [.identifier, .punctuator]) : literal? '"' stringMarks (v ++ c :: tail') = none :=
    literal?_before quote_notMem_stringMarks hstringMarks (fun _ _ => h.not_quoted hlone hkind (.inr rfl)) tail'
  have hend : Starts v [] kind := h.before_blank hlone (by simp)
  have hfinds := hend.finds
  have hnumber? (hnumber : number? v = some v.length ∨ number? v = none) : number? (v ++ c :: tail') = number? v :=
    number?_before_separator hc h.ne_nil hnumber tail'
  refine ⟨h.ne_nil, h.first, ?_⟩
  generalize hn : v.length = n at hfinds ⊢
  cases hfinds with
  | number hnumber =>
    subst hn
    rw [List.append_nil] at hnumber
    exact .number ((hnumber? (.inl hnumber)).trans hnumber)
  | character hnumber hliteral =>
    subst hn
    rw [List.append_nil] at hnumber
    exact .character ((hnumber? (.inr hnumber)).trans hnumber) (literal?_append apostrophe_notMem_characterMarks hliteral _)
  | string hnumber _ hliteral =>
    subst hn
    rw [List.append_nil] at hnumber
    exact .string ((hnumber? (.inr hnumber)).trans hnumber) (hcharacter (by simp)) (literal?_append quote_notMem_stringMarks hliteral _)
  | identifier =>
    subst hn
    obtain ⟨-, -, hpart, -, -, hmark⟩ := plain_of_separator c hc
    have hquote : c ≠ Text.apostrophe ∧ c ≠ '"' := by
      simp only [List.mem_cons, not_or] at hmark
      tauto
    have hstarts : Starts v (c :: tail') .identifier := hend.isIdentifier.starts (by rintro _ ⟨⟩; exact ⟨hpart, hquote⟩)
    exact hstarts.finds
  | punctuator hnumber _ _ hidentifier =>
    rw [List.append_nil] at hnumber ⊢
    rw [← punctuatorLength_before_separator hc tail']
    exact .punctuator ((hnumber? (.inr hnumber)).trans hnumber) (hcharacter (by simp)) (hstring (by simp))
      (identifier?_append_none h.ne_nil hidentifier _)

end

end Lexer

/-- Unless it is a quote that stands alone, a lexed token is found again before a separator. -/
theorem Token.Lexed.starts_before_separator {t : Token} (h : t.Lexed) (hlone : ¬t.LoneQuote) {c : Char} (hc : c ∈ Lexer.separators)
    (tail : List Char) : Lexer.Starts t.value.toList (c :: tail) t.kind := by
  obtain ⟨_, hstarts⟩ := h.exists_starts
  refine hstarts.before_separator hc (fun hkind hvalue => hlone ⟨hkind, ?_⟩) tail
  have hmem := List.mem_map_of_mem (f := String.ofList) hvalue
  rwa [String.ofList_toList] at hmem

end Prepass
