import Mathlib
import Prepass.Proofs.Token.Adjacent
import Prepass.Settings

/-!
# Definitions

Each step of parsing a definition takes tokens off what is left of the text (`Cursor.rest`). So a definition text that is parsed begins with
the name of its macro, and a parenthesis or an equals sign comes next, if anything does (`Macro.head_of_definition`). No character of a
name is one of these or a blank, so the name is also what stands before the first of them, without the blanks around it
(`Settings.definedName_eq`).
-/

namespace Prepass

/-! ## Cursors -/

namespace Cursor

theorem rest_advance (c : Cursor) (n : Nat) : (c.advance n).rest = c.rest.drop n := by
  simp [rest, advance, List.drop_drop]

theorem peek?_eq_head? (c : Cursor) : c.peek? = c.rest.head? := by
  simp [peek?, rest, List.head?_drop]

theorem atEnd_eq_isEmpty (c : Cursor) : c.atEnd = c.rest.isEmpty := by
  rw [Bool.eq_iff_iff]
  simp [atEnd, rest]

theorem rest_toEnd (c : Cursor) : c.toEnd.rest = [] := by
  simp [rest, toEnd]

end Cursor

namespace Parse

section

variable {c c' : Cursor} {test : Token → Bool} {e : ParseError} {t : Token}

/-- A token that is read was the next one. -/
theorem rest_of_token (h : token test e c = .ok t c') : test t = true ∧ c.rest = t :: c'.rest := by
  unfold token at h
  rw [c.peek?_eq_head?] at h
  cases hrest : c.rest with
  | nil =>
    rw [hrest] at h
    cases h
  | cons u rest =>
    rw [hrest] at h
    dsimp only [List.head?_cons] at h
    split at h
    · cases h
      rw [c.rest_advance, hrest]
      exact ⟨‹_›, rfl⟩
    · cases h

theorem rest_of_peek (h : peek c = .ok t c') : c' = c ∧ ∃ more, c.rest = t :: more := by
  unfold peek at h
  rw [c.peek?_eq_head?] at h
  cases hrest : c.rest with
  | nil =>
    rw [hrest] at h
    cases h
  | cons u rest =>
    rw [hrest] at h
    cases h
    exact ⟨rfl, rest, rfl⟩

end

/-- The name of a macro is an identifier, the first token. What follows it is left, unless it is a parenthesis. -/
theorem rest_of_macroDefinition {c c' : Cursor} {parts : Token × Option (List Token) × Option Token}
    (h : macroDefinition c = .ok parts c') :
    parts.1.kind = .identifier ∧ ∃ rest, c.rest = parts.1 :: rest ∧ (c'.rest = rest ∨ ∃ next ∈ rest.head?, next.value = "(") := by
  obtain ⟨name, c₁, hname, h⟩ := exists_of_bind_ok h
  obtain ⟨hkind, hrest⟩ := rest_of_token hname
  have hkind : name.kind = .identifier := by simpa using hkind
  obtain ⟨done, c₂, hdone, h⟩ := exists_of_bind_ok h
  cases hdone
  split at h
  · cases h
    exact ⟨hkind, _, hrest, .inl rfl⟩
  · obtain ⟨next, c₃, hpeek, hnext⟩ := exists_of_bind_ok h
    obtain ⟨rfl, more, hmore⟩ := rest_of_peek hpeek
    split at hnext
    · cases hnext
      exact ⟨hkind, _, hrest, .inl rfl⟩
    · rename_i hopen
      obtain ⟨_, c₄, -, hnext⟩ := exists_of_bind_ok hnext
      obtain ⟨_, c₅, -, hnext⟩ := exists_of_bind_ok hnext
      obtain ⟨_, c₆, -, hnext⟩ := exists_of_bind_ok hnext
      cases hnext
      refine ⟨hkind, _, hrest, .inr ⟨next, by rw [hmore]; rfl, ?_⟩⟩
      exact Decidable.not_not.mp fun hne => hopen (.inl hne)

end Parse

/-! ## The name of a definition -/

namespace Macro

/-- A definition text begins with the name of its macro, and a parenthesis or an equals sign comes next, if anything does. -/
theorem head_of_definition {text : String} {m : Macro} (h : ofDefinition text = .ok m) :
    ∃ name rest, Token.ofText text = name :: rest ∧ name.kind = .identifier ∧ m.name = name.value ∧
      ∀ next ∈ rest.head?, next.value ∈ ["(", "="] := by
  unfold ofDefinition at h
  split at h
  · rename_i m' c hs
    cases h
    obtain ⟨parts, c₁, hparts, h⟩ := exists_of_bind_ok hs
    obtain ⟨hkind, rest, hrest, hnext⟩ := Parse.rest_of_macroDefinition hparts
    have hname : m.name = parts.1.value ∧ ∀ next ∈ c₁.rest.head?, next.value = "=" := by
      obtain ⟨done, c₂, hdone, h⟩ := exists_of_bind_ok h
      cases hdone
      rw [c₁.atEnd_eq_isEmpty] at h
      split at h
      · rename_i hend
        cases h
        rw [List.isEmpty_iff.mp hend]
        exact ⟨rfl, by simp⟩
      · obtain ⟨equals, c₃, hequals, h⟩ := exists_of_bind_ok h
        obtain ⟨htest, hrest'⟩ := Parse.rest_of_token hequals
        obtain ⟨body, c₄, hbody, h⟩ := exists_of_bind_ok h
        cases h
        rw [hrest']
        refine ⟨rfl, ?_⟩
        rintro _ ⟨⟩
        simp only [decide_eq_true_eq] at htest
        exact htest.2
    refine ⟨parts.1, rest, hrest, hkind, hname.1, fun next hmem => ?_⟩
    rcases hnext with hsame | ⟨opening, hopening, hvalue⟩
    · rw [← hsame] at hmem
      simp [hname.2 next hmem]
    · cases hmem.symm.trans hopening
      simp [hvalue]
  · cases h

end Macro

/-- Trimming takes the blanks around a word off. -/
theorem Text.trim_between {before word after : List Char} (hbefore : ∀ c ∈ before, isBlank c = true) (hafter : ∀ c ∈ after, isBlank c = true)
    (hfirst : ∃ c ∈ word.head?, isBlank c = false) (hlast : ∃ c ∈ word.getLast?, isBlank c = false) :
    trim (before ++ (word ++ after)) = word := by
  have hdrop {blanks cs : List Char} (hblanks : ∀ c ∈ blanks, isBlank c = true) (hhead : ∃ c ∈ cs.head?, isBlank c = false) :
      (blanks ++ cs).dropWhile isBlank = cs := by
    obtain ⟨c, hc, hblank⟩ := hhead
    obtain ⟨rest, rfl⟩ := List.head?_eq_some_iff.mp hc
    rw [List.dropWhile_append_of_pos hblanks, List.dropWhile_cons_of_neg (by simp [hblank])]
  have hstart : ∃ c ∈ (word ++ after).head?, isBlank c = false := by
    obtain ⟨c, hc, hblank⟩ := hfirst
    exact ⟨c, by rw [List.head?_append, hc]; rfl, hblank⟩
  rw [trim, trimStart, hdrop hbefore hstart, trimEnd, List.reverse_append, hdrop (by simpa using hafter) (by simpa using hlast),
    List.reverse_reverse]

namespace Settings

/-- A text with nothing but blanks around a name, up to a parenthesis or an equals sign or the end, has the name as its defined name. -/
theorem definedName_ofList {before name after more : List Char} (hbefore : ∀ c ∈ before, Text.isBlank c = true)
    (hafter : ∀ c ∈ after, Text.isBlank c = true) (hname : Lexer.IsIdentifier name)
    (hmore : ∀ c ∈ more.head?, c = '(' ∨ c = '=') : definedName (String.ofList (before ++ (name ++ (after ++ more)))) = String.ofList name := by
  have hplain {c : Char} (hc : Text.isBlank c = true ∨ Lexer.isIdentifierPart c = true) : (c ≠ '(' && c ≠ '=') = true := by
    have hne {d : Char} (hd : Text.isBlank d = false ∧ Lexer.isIdentifierPart d = false) : c ≠ d := by
      rintro rfl
      simp [hd] at hc
    simp [hne (d := '(') (by decide), hne (d := '=') (by decide)]
  have hword : ∀ c ∈ before ++ (name ++ after), (c ≠ '(' && c ≠ '=') = true := by
    intro c hc
    simp only [List.mem_append] at hc
    rcases hc with hc | hc | hc
    · exact hplain (.inl (hbefore c hc))
    · exact hplain (.inr (hname.all_part c hc))
    · exact hplain (.inl (hafter c hc))
  have hstop : more.takeWhile (fun c => c ≠ '(' && c ≠ '=') = [] := by
    cases more with
    | nil => rfl
    | cons c more => rcases hmore c rfl with rfl | rfl <;> rfl
  have hends : (∃ c ∈ name.head?, Text.isBlank c = false) ∧ ∃ c ∈ name.getLast?, Text.isBlank c = false := by
    cases name with
    | nil => exact hname.elim
    | cons c name =>
      have hblank (d : Char) (hd : d ∈ c :: name) : Text.isBlank d = false := Lexer.isBlank_of_isIdentifierPart (hname.all_part d hd)
      exact ⟨⟨c, rfl, hblank c List.mem_cons_self⟩, _, List.getLast?_eq_getLast_of_ne_nil (List.cons_ne_nil c name), hblank _ (List.getLast_mem _)⟩
  rw [definedName, String.toList_ofList, ← List.append_assoc name, ← List.append_assoc before, List.takeWhile_append_of_pos hword, hstop,
    List.append_nil, Text.trim_between hbefore hafter hends.1 hends.2]

/-- The name that is found in a definition text is the name of the macro that the text defines. -/
theorem definedName_eq {definition : String} {m : Macro} (h : Macro.ofDefinition definition = .ok m) : definedName definition = m.name := by
  obtain ⟨name, rest, htokens, hkind, hname, hnext⟩ := Macro.head_of_definition h
  obtain ⟨before, tail, column, htext, hbefore, hstarts, htail⟩ := Lexer.exists_of_scan_cons htokens
  rw [hkind] at hstarts
  obtain ⟨after, more, rfl, hafter, hmore⟩ : ∃ after more, tail = after ++ more ∧ (∀ c ∈ after, Text.isBlank c = true) ∧
      ∀ c ∈ more.head?, c = '(' ∨ c = '=' := by
    cases rest with
    | nil => exact ⟨tail, [], by simp, Lexer.isBlank_of_scan_nil htail, by simp⟩
    | cons next rest =>
      obtain ⟨after, tail', column', rfl, hafter, -, -⟩ := Lexer.exists_of_scan_cons htail
      refine ⟨after, next.value.toList ++ tail', rfl, hafter, ?_⟩
      have hvalue := hnext next rfl
      simp only [List.mem_cons, List.not_mem_nil, or_false] at hvalue
      rcases hvalue with hvalue | hvalue
      · rw [hvalue]
        rintro _ ⟨⟩
        exact .inl rfl
      · rw [hvalue]
        rintro _ ⟨⟩
        exact .inr rfl
  have hfound := definedName_ofList hbefore hafter hstarts.isIdentifier hmore
  rw [← htext, String.ofList_toList, String.ofList_toList] at hfound
  exact hfound.trans hname.symm

end Settings

end Prepass
