import Prepass.Proofs.Token.Reading

/-!
# Lexing loses nothing

The tokens of a text lie in it one after another. Each has the characters that stand at its place, everything between them is blank, and a
token is marked as spaced just when a blank stands right before it (`Token.lossless_ofText`). A lexeme does not end in a blank, so a blank
before a token never belongs to the token before it.
-/

namespace Prepass

/-- The token of a text that begins at a column has the character at a position of the text. -/
def Token.Covers (t : Token) (column : Int) (i : Nat) : Prop :=
  t.column ≤ column + i ∧ column + i < t.column + t.value.length

/-- The tokens of the part of a text from `start` on, where the text begins at a column. They are not empty, lie in the text, each with the
characters at its place, and follow one another; a character that none of them has is a blank, and a token is marked as spaced just when a
blank stands right before it. -/
structure Lossless (text : List Char) (column : Int) (start : Nat) (tokens : List Token) : Prop where
  nonempty : ∀ t ∈ tokens, t.value ≠ ""
  inText : ∀ t ∈ tokens, ∃ n : Nat, start ≤ n ∧ t.column = column + n ∧ (text.drop n).take t.value.length = t.value.toList
  inOrder : tokens.Pairwise fun (a b : Token) => a.column + a.value.length ≤ b.column
  blankBetween : ∀ i c, start ≤ i → text[i]? = some c → (∀ t ∈ tokens, ¬t.Covers column i) → Text.isBlank c = true
  spaced_iff : ∀ t ∈ tokens, t.spaced = true ↔ ∃ (i : Nat) (c : Char), t.column = column + (i + 1) ∧ text[i]? = some c ∧ Text.isBlank c = true

namespace Lossless

variable {text : List Char} {column : Int} {start : Nat} {t : Token} {tokens : List Token}

theorem nil (h : text.length ≤ start) : Lossless text column start [] := by
  refine ⟨List.forall_mem_nil _, List.forall_mem_nil _, .nil, ?_, List.forall_mem_nil _⟩
  intro i c hi hc _
  have hlt := (List.getElem?_eq_some_iff.mp hc).1
  omega

/-- A blank is no part of a token. -/
theorem blank {c : Char} (hc : text[start]? = some c) (hblank : Text.isBlank c = true) (h : Lossless text column (start + 1) tokens) :
    Lossless text column start tokens := by
  refine ⟨h.nonempty, ?_, h.inOrder, ?_, h.spaced_iff⟩
  · intro t ht
    obtain ⟨n, hn, hplace⟩ := h.inText t ht
    exact ⟨n, by omega, hplace⟩
  · intro i d hi hd hout
    rcases Nat.eq_or_lt_of_le hi with rfl | hi
    · cases hc.symm.trans hd
      exact hblank
    · exact h.blankBetween i d hi hd hout

/-- One more token before those that follow it. -/
theorem cons (hcolumn : t.column = column + start) (hne : t.value ≠ "") (htext : (text.drop start).take t.value.length = t.value.toList)
    (hspaced : t.spaced = true ↔ ∃ i c, start = i + 1 ∧ text[i]? = some c ∧ Text.isBlank c = true)
    (h : Lossless text column (start + t.value.length) tokens) : Lossless text column start (t :: tokens) := by
  refine ⟨List.forall_mem_cons.mpr ⟨hne, h.nonempty⟩, ?_, ?_, ?_, ?_⟩
  · refine List.forall_mem_cons.mpr ⟨⟨start, Nat.le_refl _, hcolumn, htext⟩, fun u hu => ?_⟩
    obtain ⟨n, hn, hplace⟩ := h.inText u hu
    exact ⟨n, by omega, hplace⟩
  · refine List.pairwise_cons.mpr ⟨fun u hu => ?_, h.inOrder⟩
    obtain ⟨n, hn, hplace, -⟩ := h.inText u hu
    rw [hcolumn, hplace]
    omega
  · intro i c hi hc hout
    obtain ⟨hhead, htail⟩ := List.forall_mem_cons.mp hout
    -- before the end of the token the character would be one of it
    refine h.blankBetween i c (Nat.le_of_not_lt fun hlt => hhead ⟨?_, ?_⟩) hc htail
    · omega
    · omega
  · refine List.forall_mem_cons.mpr ⟨hspaced.trans ?_, h.spaced_iff⟩
    have hstart (i : Nat) : start = i + 1 ↔ t.column = column + (i + 1) := by omega
    simp only [hstart]

end Lossless

/-- What holds of the last character of a part of a text holds of the character before the place where the part ends. -/
theorem exists_getLast?_iff {p : Char → Prop} {before : List Char} (after : List Char) :
    (∃ c ∈ before.getLast?, p c) ↔ ∃ i c, before.length = i + 1 ∧ (before ++ after)[i]? = some c ∧ p c := by
  constructor
  · rintro ⟨c, hc, hp⟩
    have hpos : 0 < before.length := List.length_pos_of_mem (List.mem_of_getLast? hc)
    refine ⟨before.length - 1, c, by omega, ?_, hp⟩
    rw [List.getElem?_append_left (by omega), ← List.getLast?_eq_getElem?]
    exact hc
  · rintro ⟨i, c, hlength, hc, hp⟩
    refine ⟨c, ?_, hp⟩
    rw [List.getElem?_append_left (by omega)] at hc
    rw [List.getLast?_eq_getElem?, hlength]
    exact hc

namespace Lexer

/-- The tokens of what follows a part of a text, when a blank at the end of that part is known of. -/
theorem lossless_scan (line : Int) (uri : String) (column : Int) {spaced : Bool} {before : List Char} (cs : List Char)
    (hspaced : spaced = true ↔ ∃ c ∈ before.getLast?, Text.isBlank c = true) :
    Lossless (before ++ cs) column before.length (scan line uri (column + before.length) spaced cs) := by
  induction cs using reading_induction generalizing before spaced with
  | nil =>
    rw [scan_nil]
    exact .nil (by simp)
  | blank c rest hc ih =>
    have hrest : Lossless ((before ++ [c]) ++ rest) column (before ++ [c]).length
        (scan line uri (column + (before ++ [c]).length) true rest) := ih (by simpa using hc)
    rw [List.append_assoc, List.singleton_append, List.length_append, List.length_singleton, Int.natCast_add, ← Int.add_assoc] at hrest
    rw [scan_blank hc]
    exact .blank (by simp) hc hrest
  | lexeme v tail kind hstarts ih =>
    have hlast : false = true ↔ ∃ c ∈ (before ++ v).getLast?, Text.isBlank c = true := by
      refine ⟨nofun, ?_⟩
      rintro ⟨c, hc, hblank⟩
      have hlast := List.getLast?_eq_some_getLast hstarts.ne_nil
      rw [List.getLast?_append, hlast, Option.some_or] at hc
      rw [← hblank, hstarts.last c (hlast.trans hc)]
    have hrest : Lossless ((before ++ v) ++ tail) column (before ++ v).length
        (scan line uri (column + (before ++ v).length) false tail) := ih hlast
    rw [List.append_assoc, List.length_append, Int.natCast_add, ← Int.add_assoc] at hrest
    rw [hstarts.scan_eq]
    refine .cons rfl ?_ ?_ (hspaced.trans (exists_getLast?_iff (v ++ tail))) ?_
    · intro hempty
      exact hstarts.ne_nil (by simpa using congrArg String.toList hempty)
    · simp
    · simpa using hrest

end Lexer

/-- Lexing loses nothing, at whatever column a text begins. -/
theorem Token.lossless_ofText (text : String) (line : Int) (uri : String) (column : Int) :
    Lossless text.toList column 0 (ofText text line uri column) := by
  have hnone : false = true ↔ ∃ c ∈ ([] : List Char).getLast?, Text.isBlank c = true := by simp
  have h := Lexer.lossless_scan line uri column text.toList hnone
  rw [List.nil_append, List.length_nil, Int.natCast_zero, Int.add_zero] at h
  exact h

end Prepass
