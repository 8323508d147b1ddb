import Prepass.Token.Lexer

/-!
# Kinds and texts of lexed tokens

A lexed token has the kind and the text of the lexeme it was made from (`Lexer.exists_lexeme`), so its first character tells a good deal
about its kind: a number sign makes a punctuator, and a letter that marks no literal makes an identifier. The place of a text has no
part in the kinds and texts of its tokens (`Token.ofText_place`).
-/

namespace Prepass

namespace Lexer

/-- A token has the kind and the text of a lexeme. -/
theorem exists_lexeme {line column : Int} {uri : String} {spaced : Bool} {cs : List Char} {t : Token}
    (h : t ∈ scan line uri column spaced cs) :
    ∃ c rest, t.kind = (lexeme (c :: rest)).1 ∧ t.value = String.ofList ((c :: rest).take (lexeme (c :: rest)).2) := by
  fun_induction scan line uri column spaced cs with
  | case1 => nomatch h
  | case2 column spaced c rest _ ih => exact ih h
  | case3 column spaced c rest _ kind length hlex ih =>
    rcases List.mem_cons.mp h with rfl | h
    · exact ⟨c, rest, by rw [hlex], by rw [hlex]⟩
    · exact ih h

/-- The first character of a token is the one its lexeme begins with. -/
theorem kind_of_value {line column : Int} {uri : String} {spaced : Bool} {cs : List Char} {t : Token} {first : Char}
    {more : List Char} (h : t ∈ scan line uri column spaced cs) (hvalue : t.value = String.ofList (first :: more)) :
    ∃ rest, t.kind = (lexeme (first :: rest)).1 := by
  obtain ⟨c, rest, hkind, htext⟩ := exists_lexeme h
  rw [hvalue, String.ofList_inj] at htext
  cases hlen : (lexeme (c :: rest)).2 with
  | zero =>
    rw [hlen] at htext
    nomatch htext
  | succ n =>
    rw [hlen, List.take_succ_cons, List.cons.injEq] at htext
    obtain ⟨rfl, -⟩ := htext
    exact ⟨rest, hkind⟩

/-- There is no literal where neither its quote nor one of its marks begins. -/
theorem literal?_eq_none {quote c : Char} {marks : List (List Char)} (rest : List Char) (hquote : c ≠ quote)
    (hmarks : ∀ mark ∈ marks, ∃ d more, mark = d :: more ∧ d ≠ c) : literal? quote marks (c :: rest) = none := by
  have hfind : marks.find? (fun mark => (mark ++ [quote]).isPrefixOf (c :: rest)) = none := by
    rw [List.find?_eq_none]
    intro mark hmem
    obtain ⟨d, more, rfl, hd⟩ := hmarks mark hmem
    simp [List.isPrefixOf, hd]
  simp [literal?, markLength, hfind, hquote]

/-- A lexeme that begins with no digit, period, quote or mark of a literal is an identifier or a punctuator, as its first character tells. -/
theorem lexeme_kind {c : Char} (rest : List Char) (hdigit : Text.isDigit c = false)
    (hmark : c ∉ ['.', 'u', 'U', 'L', '@', '"', Text.apostrophe]) :
    (lexeme (c :: rest)).1 = if isIdentifierStart c then .identifier else .punctuator := by
  simp only [List.mem_cons, List.not_mem_nil, or_false, not_or] at hmark
  obtain ⟨hperiod, hu, hU, hL, hat, hdouble, hsingle⟩ := hmark
  have hnumber : number? (c :: rest) = none := by
    unfold number?
    split
    · rename_i heq
      cases heq
      exact absurd rfl hperiod
    · rename_i heq
      cases heq
      rw [hdigit]
      rfl
    · rfl
  have hchar : literal? Text.apostrophe characterMarks (c :: rest) = none :=
    literal?_eq_none rest hsingle (by simp [characterMarks, Ne.symm hu, Ne.symm hU, Ne.symm hL])
  have hstring : literal? '"' stringMarks (c :: rest) = none :=
    literal?_eq_none rest hdouble (by simp [stringMarks, Ne.symm hu, Ne.symm hU, Ne.symm hL, Ne.symm hat])
  rw [lexeme, hnumber, hchar, hstring]
  by_cases hstart : isIdentifierStart c = true
  · simp [identifier?, hstart]
  · simp [identifier?, hstart]

/-- Tokens have the same texts and kinds wherever their text stands. -/
theorem scan_place (line line' column column' : Int) (uri uri' : String) (spaced spaced' : Bool) (cs : List Char) :
    (scan line uri column spaced cs).map (fun t => (t.value, t.kind)) =
      (scan line' uri' column' spaced' cs).map (fun t => (t.value, t.kind)) := by
  fun_induction scan line uri column spaced cs generalizing column' spaced' with
  | case1 => rw [scan]
  | case2 column spaced c rest hblank ih =>
    rw [scan, if_pos hblank]
    exact ih _ _
  | case3 column spaced c rest hblank kind length hlex ih =>
    rw [scan, if_neg hblank, hlex]
    simp only [List.map_cons]
    rw [ih]

end Lexer

namespace Token

/-- The texts and kinds of the tokens of a text do not depend on its place. -/
theorem ofText_place (text : String) (line : Int) (uri : String) :
    (ofText text line uri).map (fun t => (t.value, t.kind)) = (ofText text).map (fun t => (t.value, t.kind)) :=
  Lexer.scan_place ..

/-- A lexed number sign is a punctuator. -/
theorem kind_numberSign {text : String} {line : Int} {uri : String} {t : Token} (h : t ∈ ofText text line uri)
    (hvalue : t.value = "#") : t.kind = .punctuator := by
  obtain ⟨rest, hkind⟩ := Lexer.kind_of_value h (hvalue.trans (String.ofList_toList (s := "#")).symm)
  rw [hkind, Lexer.lexeme_kind rest (by decide) (by decide)]
  decide

/-- A lexed word whose first letter marks no literal is an identifier. -/
theorem kind_word {text : String} {line : Int} {uri : String} {t : Token} (h : t ∈ ofText text line uri) {first : Char}
    (hfirst : t.value.toList.head? = some first) (hstart : Lexer.isIdentifierStart first = true)
    (hdigit : Text.isDigit first = false) (hmark : first ∉ ['.', 'u', 'U', 'L', '@', '"', Text.apostrophe]) :
    t.kind = .identifier := by
  obtain ⟨more, hmore⟩ : ∃ more, t.value.toList = first :: more := List.head?_eq_some_iff.mp hfirst
  obtain ⟨rest, hkind⟩ := Lexer.kind_of_value h (by rw [← hmore, String.ofList_toList])
  rw [hkind, Lexer.lexeme_kind rest hdigit hmark, if_pos hstart]

end Token

end Prepass
