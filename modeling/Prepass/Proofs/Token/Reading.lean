import Prepass.Proofs.Token.Recogniser

/-!
# Texts as the lexer reads them

The first recogniser that fits gives the lexeme at the head of a text (`Lexer.Finds`). A lexeme is part of the text, is not empty and does not
end in a blank, so a text is read blank by blank and lexeme by lexeme (`Lexer.reading_induction`). A lexeme is found again before any other
text, as long as that text adds nothing to it without a blank between and closes no literal that was left open (`Lexer.Finds.append`).
-/

namespace Prepass

namespace Lexer

/-! ## The recognisers in turn -/

/-- What is found at the head of a text, and how long it is: the first recogniser that fits decides. -/
inductive Finds (cs : List Char) : Token.Kind → Nat → Prop
  | number {n : Nat} (h : number? cs = some n) : Finds cs .numberLiteral n
  | character {n : Nat} (hnumber : number? cs = none) (h : literal? Text.apostrophe characterMarks cs = some n) :
    Finds cs .characterLiteral n
  | string {n : Nat} (hnumber : number? cs = none) (hcharacter : literal? Text.apostrophe characterMarks cs = none)
    (h : literal? '"' stringMarks cs = some n) : Finds cs .stringLiteral n
  | identifier {n : Nat} (hnumber : number? cs = none) (hcharacter : literal? Text.apostrophe characterMarks cs = none)
    (hstring : literal? '"' stringMarks cs = none) (h : identifier? cs = some n) : Finds cs .identifier n
  | punctuator (hnumber : number? cs = none) (hcharacter : literal? Text.apostrophe characterMarks cs = none)
    (hstring : literal? '"' stringMarks cs = none) (hidentifier : identifier? cs = none) :
    Finds cs .punctuator (punctuatorLength cs)

theorem finds_lexeme (cs : List Char) : Finds cs (lexeme cs).1 (lexeme cs).2 := by
  unfold lexeme
  split
  · exact .number ‹_›
  · split
    · exact .character ‹_› ‹_›
    · split
      · exact .string ‹_› ‹_› ‹_›
      · split
        · exact .identifier ‹_› ‹_› ‹_› ‹_›
        · exact .punctuator ‹_› ‹_› ‹_› ‹_›

theorem Finds.lexeme_eq {cs : List Char} {kind : Token.Kind} {n : Nat} (h : Finds cs kind n) : lexeme cs = (kind, n) := by
  cases h <;> simp [lexeme, *]

/-! ## Lexemes -/

namespace Finds

variable {cs v tail tail' : List Char} {kind : Token.Kind} {n : Nat}

/-- A lexeme is part of the text, and it is not empty. -/
theorem length_bounds (h : Finds cs kind n) (hcs : cs ≠ []) : 0 < n ∧ n ≤ cs.length := by
  cases h with
  | number h => exact ⟨(number_in_text h).1, (number_in_text h).2.1⟩
  | character _ h => exact length_of_literal apostrophe_notMem_characterMarks h
  | string _ _ h => exact length_of_literal quote_notMem_stringMarks h
  | identifier _ _ _ h => exact ⟨(identifier_in_text h).1, (identifier_in_text h).2.1⟩
  | punctuator => exact ⟨(punctuator_in_text hcs).1, (punctuator_in_text hcs).2.1⟩

/-- A lexeme that is no literal has no blanks. -/
theorem isBlank_of_mem (h : Finds cs kind n) (hfirst : ∀ c ∈ cs.head?, Text.isBlank c = false)
    (hkind : kind ∈ [.numberLiteral, .identifier, .punctuator]) : ∀ c ∈ cs.take n, Text.isBlank c = false := by
  intro c hc
  cases h with
  | number h => exact (number_in_text h).2.2 c hc
  | character | string => simp at hkind
  | identifier _ _ _ h => exact isBlank_of_isIdentifierPart ((identifier_in_text h).2.2 c hc)
  | punctuator =>
    cases cs with
    | nil => cases hc
    | cons d rest =>
      rcases (punctuator_in_text (List.cons_ne_nil d rest)).2.2 with hlong | hone
      · exact (plain_of_mem_longPunctuators _ hlong c hc).1
      · rw [hone] at hc
        rw [List.mem_singleton.mp hc]
        exact hfirst d rfl

/-- A lexeme does not end in a blank. -/
theorem isBlank_last (h : Finds cs kind n) (hfirst : ∀ c ∈ cs.head?, Text.isBlank c = false) :
    ∀ c ∈ (cs.take n).getLast?, Text.isBlank c = false := by
  intro c hc
  have hplain := h.isBlank_of_mem hfirst
  cases h with
  | number | identifier | punctuator => exact hplain (by simp) c (List.mem_of_getLast? hc)
  | character _ h =>
    rw [getLast?_literal apostrophe_notMem_characterMarks h] at hc
    cases hc
    decide
  | string _ _ h =>
    rw [getLast?_literal quote_notMem_stringMarks h] at hc
    cases hc
    decide

/-- The characters of a lexeme that is an identifier or a punctuator: a quote is among them only when it stands alone. -/
theorem eq_of_quote_mem (h : Finds (v ++ tail) kind n) (hn : n = v.length) (hv : v ≠ []) (hkind : kind ∈ [.identifier, .punctuator])
    {quote : Char} (hquote : quote = Text.apostrophe ∨ quote = '"') (hmem : quote ∈ v) : kind = .punctuator ∧ v = [quote] := by
  have htake : (v ++ tail).take n = v := by rw [hn, List.take_left]
  cases h with
  | number | character | string => simp at hkind
  | identifier _ _ _ h =>
    have hpart := (identifier_in_text h).2.2 quote (htake.symm ▸ hmem)
    rcases hquote with rfl | rfl <;> exact absurd hpart (by decide)
  | punctuator =>
    refine ⟨rfl, ?_⟩
    rcases (punctuator_in_text (List.append_ne_nil_of_left_ne_nil hv tail)).2.2 with hlong | hone
    · obtain ⟨-, hsingle, hdouble⟩ := plain_of_mem_longPunctuators _ hlong quote (htake.symm ▸ hmem)
      rcases hquote with rfl | rfl
      · exact absurd rfl hsingle
      · exact absurd rfl hdouble
    · obtain ⟨c, rfl⟩ := List.length_eq_one_iff.mp (hn.symm.trans hone)
      rw [List.mem_singleton.mp hmem]

/-- A lexeme is found again before another text, when that text adds nothing to it without a blank between and closes no literal that was
left open. -/
theorem append (h : Finds (v ++ tail) kind n) (hn : n = v.length) (hv : v ≠ []) (hfurther : NoFurther tail tail')
    (hcharacter : kind ∈ [.stringLiteral, .identifier, .punctuator] → literal? Text.apostrophe characterMarks (v ++ tail) = none →
      literal? Text.apostrophe characterMarks (v ++ tail') = none)
    (hstring : kind ∈ [.identifier, .punctuator] → literal? '"' stringMarks (v ++ tail) = none →
      literal? '"' stringMarks (v ++ tail') = none) :
    Finds (v ++ tail') kind n := by
  cases h with
  | number h =>
    subst hn
    exact .number (number?_append hfurther hv h)
  | character hnumber h =>
    subst hn
    exact .character (number?_append_none hfurther hv hnumber) (literal?_append apostrophe_notMem_characterMarks h tail')
  | string hnumber hnone h =>
    subst hn
    exact .string (number?_append_none hfurther hv hnumber) (hcharacter (by simp) hnone) (literal?_append quote_notMem_stringMarks h tail')
  | identifier hnumber hnone hnone' h =>
    subst hn
    exact .identifier (number?_append_none hfurther hv hnumber) (hcharacter (by simp) hnone) (hstring (by simp) hnone')
      (identifier?_append hfurther hv h)
  | punctuator hnumber hnone hnone' h =>
    rw [hn, ← punctuatorLength_append hfurther hn]
    exact .punctuator (number?_append_none hfurther hv hnumber) (hcharacter (by simp) hnone) (hstring (by simp) hnone')
      (identifier?_append_none hv h tail')

end Finds

/-! ## Texts that start with a lexeme -/

/-- The text `v ++ tail` starts with the lexeme `v`. -/
structure Starts (v tail : List Char) (kind : Token.Kind) : Prop where
  ne_nil : v ≠ []
  first : ∀ c ∈ v.head?, Text.isBlank c = false
  finds : Finds (v ++ tail) kind v.length

namespace Starts

variable {v tail : List Char} {kind : Token.Kind}

theorem head_of_append (h : Starts v tail kind) : ∀ c ∈ (v ++ tail).head?, Text.isBlank c = false := by
  cases v with
  | nil => exact absurd rfl h.ne_nil
  | cons c v => exact h.first

/-- The lexeme does not end in a blank. -/
theorem last (h : Starts v tail kind) : ∀ c ∈ v.getLast?, Text.isBlank c = false := by
  have hlast := h.finds.isBlank_last h.head_of_append
  rwa [List.take_left] at hlast

/-- The lexeme has no blanks when it is no literal. -/
theorem isBlank_of_mem (h : Starts v tail kind) (hkind : kind ∈ [.numberLiteral, .identifier, .punctuator]) :
    ∀ c ∈ v, Text.isBlank c = false := by
  have hplain := h.finds.isBlank_of_mem h.head_of_append hkind
  rwa [List.take_left] at hplain

end Starts

/-- A character that is no blank starts a lexeme. -/
theorem exists_starts {c : Char} (hc : Text.isBlank c = false) (rest : List Char) :
    ∃ v tail kind, c :: rest = v ++ tail ∧ Starts v tail kind := by
  have hfinds := finds_lexeme (c :: rest)
  obtain ⟨hpos, hle⟩ := hfinds.length_bounds (List.cons_ne_nil c rest)
  generalize (lexeme (c :: rest)).2 = n at hfinds hpos hle
  have hlength : ((c :: rest).take n).length = n := List.length_take_of_le hle
  refine ⟨(c :: rest).take n, (c :: rest).drop n, (lexeme (c :: rest)).1, (List.take_append_drop n (c :: rest)).symm, ?_, ?_, ?_⟩
  · intro hnil
    rw [hnil] at hlength
    exact absurd hlength (Nat.ne_of_lt hpos)
  · intro d hd
    rw [List.head?_take, if_neg (Nat.ne_of_gt hpos), List.head?_cons] at hd
    cases hd
    exact hc
  · rw [List.take_append_drop, hlength]
    exact hfinds

/-- A text is empty, or begins with a blank, or starts with a lexeme: induction on a text as the lexer reads it. -/
@[elab_as_elim]
theorem reading_induction {motive : List Char → Prop} (nil : motive [])
    (blank : ∀ c rest, Text.isBlank c = true → motive rest → motive (c :: rest))
    (lexeme : ∀ v tail kind, Starts v tail kind → motive tail → motive (v ++ tail)) (cs : List Char) : motive cs := by
  induction hn : cs.length using Nat.strongRecOn generalizing cs with
  | ind n ih =>
    cases cs with
    | nil => exact nil
    | cons c rest =>
      have hless (ds : List Char) (hlength : ds.length < (c :: rest).length) : motive ds := ih ds.length (hn ▸ hlength) ds rfl
      cases hc : Text.isBlank c with
      | true => exact blank c rest hc (hless rest (Nat.lt_succ_self _))
      | false =>
        obtain ⟨v, tail, kind, hcs, hstarts⟩ := exists_starts hc rest
        rw [hcs] at hless ⊢
        refine lexeme v tail kind hstarts (hless tail ?_)
        have hpos := List.length_pos_iff.mpr hstarts.ne_nil
        rw [List.length_append]
        omega

section

variable {line column : Int} {uri : String} {spaced : Bool}

theorem scan_nil : scan line uri column spaced [] = [] := by
  rw [scan]

theorem scan_blank {c : Char} (hc : Text.isBlank c = true) (rest : List Char) :
    scan line uri column spaced (c :: rest) = scan line uri (column + 1) true rest := by
  rw [scan, if_pos hc]

/-- A text that starts with a lexeme has it as its first token. -/
theorem Starts.scan_eq {v tail : List Char} {kind : Token.Kind} (h : Starts v tail kind) :
    scan line uri column spaced (v ++ tail) =
      { value := String.ofList v, kind, line, column, uri, spaced } :: scan line uri (column + v.length) false tail := by
  obtain ⟨hne, hfirst, hfinds⟩ := h
  have hlexeme := hfinds.lexeme_eq
  cases v with
  | nil => exact absurd rfl hne
  | cons c v =>
    rw [List.cons_append] at hlexeme ⊢
    rw [scan, if_neg (by simp [hfirst c rfl]), hlexeme]
    simp

end

end Lexer

end Prepass
