import Prepass.Token.Lexer

/-!
# Classes of characters

A code point is in one of two classes at most when their ranges are apart. So neither a digit nor a character of an identifier or a number is
a blank.
-/

namespace Prepass

namespace Text

/-- What is in a class is in one of its ranges. -/
theorem exists_range_of_inRanges {ranges : List (Nat × Nat)} {n : Nat} (h : inRanges ranges n = true) :
    ∃ r ∈ ranges, r.1 ≤ n ∧ n ≤ r.2 := by
  induction ranges with
  | nil => cases h
  | cons r ranges ih =>
    obtain ⟨first, last⟩ := r
    unfold inRanges at h
    split at h
    · cases h
    · rename_i hfirst
      rcases Bool.or_eq_true_iff.mp h with hlast | h
      · exact ⟨(first, last), List.mem_cons_self, by omega, of_decide_eq_true hlast⟩
      · obtain ⟨r, hr, hbounds⟩ := ih h
        exact ⟨r, List.mem_cons_of_mem _ hr, hbounds⟩

/-- No range of the one list meets a range of the other. -/
def apart (ranges ranges' : List (Nat × Nat)) : Bool :=
  ranges.all fun r => ranges'.all fun r' => Nat.blt r.2 r'.1 || Nat.blt r'.2 r.1

/-- A code point is in one of two classes at most when their ranges are apart. -/
theorem inRanges_eq_false_of_apart {ranges ranges' : List (Nat × Nat)} {n : Nat} (hapart : apart ranges ranges' = true)
    (h : inRanges ranges n = true) : inRanges ranges' n = false := by
  obtain ⟨r, hr, hfirst, hlast⟩ := exists_range_of_inRanges h
  rw [Bool.eq_false_iff]
  intro h'
  obtain ⟨r', hr', hfirst', hlast'⟩ := exists_range_of_inRanges h'
  simp only [apart, List.all_eq_true, Bool.or_eq_true, Nat.blt_eq] at hapart
  have := hapart r hr r' hr'
  omega

-- The letters have hundreds of ranges, and the check goes through each in turn.
set_option maxRecDepth 10000 in
theorem apart_letterRanges : apart letterRanges blankRanges = true := by rfl

theorem apart_numericRanges : apart numericRanges blankRanges = true := by rfl

theorem apart_digitRanges : apart digitRanges blankRanges = true := by rfl

/-- A letter or a number is not blank. -/
theorem isBlank_of_isAlphanumeric {c : Char} (h : isAlphanumeric c = true) : isBlank c = false := by
  rcases Bool.or_eq_true_iff.mp h with hletter | hnumeric
  · exact inRanges_eq_false_of_apart apart_letterRanges hletter
  · exact inRanges_eq_false_of_apart apart_numericRanges hnumeric

/-- A digit is not blank. -/
theorem isBlank_of_isDigit {c : Char} (h : isDigit c = true) : isBlank c = false :=
  inRanges_eq_false_of_apart apart_digitRanges h

end Text

namespace Lexer

/-- No part of an identifier is blank. -/
theorem isBlank_of_isIdentifierPart {c : Char} (h : isIdentifierPart c = true) : Text.isBlank c = false := by
  simp only [isIdentifierPart, Bool.or_eq_true, decide_eq_true_eq] at h
  rcases h with (h | rfl) | rfl
  · exact Text.isBlank_of_isAlphanumeric h
  · decide
  · decide

/-- What begins an identifier may be part of one. -/
theorem isIdentifierPart_of_start {c : Char} (h : isIdentifierStart c = true) : isIdentifierPart c = true := by
  simp only [isIdentifierStart, isIdentifierPart, Text.isAlphanumeric, Bool.or_eq_true] at h ⊢
  rcases h with (hletter | hline) | hdollar
  · exact .inl (.inl (.inl hletter))
  · exact .inl (.inr hline)
  · exact .inr hdollar

/-- No part of a number is blank. -/
theorem isBlank_of_isNumberPart {c : Char} (h : isNumberPart c = true) : Text.isBlank c = false := by
  simp only [isNumberPart, Bool.or_eq_true, decide_eq_true_eq] at h
  rcases h with (h | rfl) | rfl
  · exact Text.isBlank_of_isAlphanumeric h
  · decide
  · decide

/-- The letter of an exponent may be part of a number. -/
theorem isNumberPart_of_isExponent {c : Char} (h : isExponent c = true) : isNumberPart c = true := by
  simp only [isExponent, Bool.or_eq_true, decide_eq_true_eq] at h
  rcases h with ((rfl | rfl) | rfl) | rfl <;> decide

/-- A sign is not blank. -/
theorem isBlank_of_isSign {c : Char} (h : isSign c = true) : Text.isBlank c = false := by
  simp only [isSign, Bool.or_eq_true, decide_eq_true_eq] at h
  rcases h with rfl | rfl <;> decide

end Lexer

end Prepass
