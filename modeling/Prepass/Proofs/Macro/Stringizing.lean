import Mathlib
import Prepass.Macro.Stringize
import Prepass.Proofs.Token.Reading

/-!
# What a stringized text spells

The literal that spells a text is one string constant, whatever quotes and backslashes the text has: each of them stands after a backslash of
its own in the body, so the body closes nothing (`Stringize.literalTail?_bodyFrom`). With its escapes taken off, the body is the text, with
its runs of blanks between literals collapsed (`Stringize.unescaped_bodyFrom`). The text is told in segments for that: runs of blanks,
literals, of which the last may be open, and other characters (`Stringize.segments`).
-/

namespace Prepass.Stringize

open Lexer

/-- A text with the escapes of quotes and backslashes taken off. -/
def unescaped : List Char → List Char
  | [] => []
  | [c] => [c]
  | c :: d :: rest => if c = '\\' ∧ (d = '"' ∨ d = '\\') then d :: unescaped rest else c :: unescaped (d :: rest)

/-- A part of a text: a run of blanks between literals, a literal, or another character. -/
inductive Segment where
  | blanks (run : List Char)
  | literal (cs : List Char)
  | other (c : Char)
  deriving DecidableEq, Repr

/-- The characters of a segment. -/
def Segment.chars : Segment → List Char
  | blanks run => run
  | literal cs => cs
  | other c => [c]

/-- The segments of a text. A literal that is not closed goes on to the end of the text. -/
def segments : List Char → List Segment
  | [] => []
  | c :: rest =>
    if Text.isBlank c then .blanks (c :: rest.takeWhile Text.isBlank) :: segments (rest.dropWhile Text.isBlank)
    else if c = '"' ∨ c = Text.apostrophe then
      match literalTail? c rest with
      | some n => .literal (c :: rest.take n) :: segments (rest.drop n)
      | none => [.literal (c :: rest)]
    else .other c :: segments rest
termination_by cs => cs.length
decreasing_by
  · exact Nat.lt_succ_of_le (List.dropWhile_sublist _).length_le
  · rw [List.length_drop, List.length_cons]
    omega
  · exact Nat.lt_succ_self _

/-- The characters of the segments after `before`, with one space for a run of blanks. Nothing is left of blanks at the start and at the end of
the text, and right after a backslash between literals. -/
def collapsed (before : Option Segment) : List Segment → List Char
  | [] => []
  | .blanks run :: rest =>
    (if before = none ∨ before = some (.other '\\') ∨ rest = [] then [] else [' ']) ++ collapsed (some (.blanks run)) rest
  | segment :: rest => segment.chars ++ collapsed (some segment) rest

/-- The segments of a text are all of it. -/
theorem flatMap_chars_segments (cs : List Char) : (segments cs).flatMap Segment.chars = cs := by
  fun_induction segments cs with
  | case1 => rfl
  | case2 c rest hc ih => simp [Segment.chars, ih]
  | case3 c rest hc hquote n hn ih => simp [Segment.chars, ih]
  | case4 c rest hc hquote hn => simp [Segment.chars]
  | case5 c rest hc hquote ih => simp [Segment.chars, ih]

/-! ## One character -/

theorem escape_quoted {c : Char} (h : c = '"' ∨ c = '\\') : escape c = ['\\', c] := if_pos h

theorem escape_plain {c : Char} (h : ¬(c = '"' ∨ c = '\\')) : escape c = [c] := if_neg h

theorem unescaped_plain {c : Char} (h : c ≠ '\\') (rest : List Char) : unescaped (c :: rest) = c :: unescaped rest := by
  cases rest with
  | nil => rfl
  | cons d rest => rw [unescaped, if_neg fun hescape => h hescape.1]

/-- A character is its escape, with the escape taken off. -/
theorem unescaped_escape (c : Char) (rest : List Char) : unescaped (escape c ++ rest) = c :: unescaped rest := by
  by_cases hc : c = '"' ∨ c = '\\'
  · rw [escape_quoted hc, List.cons_append, List.singleton_append, unescaped, if_pos ⟨rfl, hc⟩]
  · rw [escape_plain hc]
    exact unescaped_plain (fun h => hc (.inr h)) rest

/-- An escape closes no string constant. -/
theorem literalTail?_escape_append (c : Char) (rest : List Char) :
    literalTail? '"' (escape c ++ rest) = (literalTail? '"' rest).map (· + (escape c).length) := by
  by_cases hc : c = '"' ∨ c = '\\'
  · rw [escape_quoted hc]
    exact literalTail?_escape (by decide) c rest
  · obtain ⟨hquote, hescape⟩ := not_or.mp hc
    rw [escape_plain hc]
    exact literalTail?_other hquote hescape rest

/-! ## One string constant -/

/-- The body of a literal closes nothing. -/
theorem literalTail?_bodyFrom (place : Context) (cs : List Char) :
    literalTail? '"' (bodyFrom place cs ++ ['"']) = some ((bodyFrom place cs).length + 1) := by
  fun_induction bodyFrom place cs with
  | case1 => exact literalTail?_quote []
  | case2 quote escaped c rest ih =>
    rw [List.append_assoc, literalTail?_escape_append, ih, Option.map_some, List.length_append]
    congr 1
    omega
  | case3 gap c rest hc ih => exact ih
  | case4 gap c rest hc ih =>
    have hescaped : literalTail? '"' (escape c ++ bodyFrom (afterOutside c) rest ++ ['"']) =
        some ((escape c ++ bodyFrom (afterOutside c) rest).length + 1) := by
      rw [List.append_assoc, literalTail?_escape_append, ih, Option.map_some, List.length_append]
      congr 1
      omega
    simp only [List.append_assoc] at hescaped ⊢
    split
    · rw [List.singleton_append, literalTail?_other (by decide) (by decide), hescaped]
      rfl
    · exact hescaped

/-- The literal that spells a text is a string constant, all of it. -/
theorem starts_literal (text : String) : Starts (literal text).toList [] .stringLiteral := by
  have hchars : (literal text).toList = '"' :: (bodyFrom (.outside .none) text.toList ++ ['"']) := by
    simp [literal, body]
  have hclosed := literalTail?_bodyFrom (.outside .none) text.toList
  have hstring : literal? '"' stringMarks (literal text).toList = some (literal text).toList.length := by
    have hquote := literal?_quote quote_notMem_stringMarks List.not_mem_nil (bodyFrom (.outside .none) text.toList ++ ['"'])
    rw [List.nil_append, if_pos List.mem_cons_self, hclosed] at hquote
    rw [hchars, hquote]
    simp
  have hnumber : number? (literal text).toList = none := by
    rw [hchars, number?_cons (by decide), if_neg (by decide)]
  have hcharacter : literal? Text.apostrophe characterMarks (literal text).toList = none := by
    rw [← Option.not_isSome_iff_eq_none, Option.isSome_iff_exists]
    rintro ⟨n, hn⟩
    obtain ⟨mark, rest, m, hmark, hcs, -, -⟩ := (literal?_eq_some_iff apostrophe_notMem_characterMarks).mp hn
    have hheads : ∀ mark ∈ [] :: characterMarks, (mark ++ [Text.apostrophe]).head? ≠ some '"' := by decide
    rw [hchars, List.append_cons mark] at hcs
    have hhead := congrArg List.head? hcs
    rw [List.head?_append_of_ne_nil _ (by simp)] at hhead
    exact hheads mark hmark hhead.symm
  refine ⟨by simp [hchars], by simp [hchars]; decide, ?_⟩
  rw [List.append_nil]
  exact .string hnumber hcharacter hstring

/-! ## The text that is spelled -/

section

variable {quote c : Char} {cs rest : List Char} {gap : Gap}

/-- The rest of a literal that is closed. -/
theorem unescaped_closed (hquote : quote ≠ '\\') {n : Nat} (h : literalTail? quote cs = some n) :
    unescaped (bodyFrom (.inside quote false) cs) = cs.take n ++ unescaped (bodyFrom (.outside .possible) (cs.drop n)) := by
  fun_induction literalTail? quote cs generalizing n with
  | case1 => cases h
  | case2 rest =>
    cases h
    simp [bodyFrom, afterInside, hquote, unescaped_escape]
  | case3 => cases h
  | case4 hescape d more ih =>
    obtain ⟨m, hm, rfl⟩ := Option.map_eq_some_iff.mp h
    simp [bodyFrom, afterInside, unescaped_escape, ih hm]
  | case5 c rest hclose hescape ih =>
    obtain ⟨m, hm, rfl⟩ := Option.map_eq_some_iff.mp h
    simp [bodyFrom, afterInside, hclose, hescape, unescaped_escape, ih hm]

/-- A literal that is not closed is all of the text that is left. -/
theorem unescaped_open (h : literalTail? quote cs = none) : unescaped (bodyFrom (.inside quote false) cs) = cs := by
  fun_induction literalTail? quote cs with
  | case1 => rfl
  | case2 => cases h
  | case3 => rfl
  | case4 hescape d more ih =>
    simp [bodyFrom, afterInside, unescaped_escape, ih (Option.map_eq_none_iff.mp h)]
  | case5 c rest hclose hescape ih =>
    simp [bodyFrom, afterInside, hclose, hescape, unescaped_escape, ih (Option.map_eq_none_iff.mp h)]

/-- Between literals, a character that is no blank and before which no space is due. -/
theorem bodyFrom_outside (hgap : gap ≠ .due) (hc : Text.isBlank c = false) :
    bodyFrom (.outside gap) (c :: rest) = escape c ++ bodyFrom (afterOutside c) rest := by
  simp [bodyFrom, hc, hgap]

/-- Blanks change the gap only, and more blanks do not change it more. -/
theorem bodyFrom_blanks (hc : Text.isBlank c = true) :
    bodyFrom (.outside gap) (c :: rest) = bodyFrom (.outside gap.blank) (rest.dropWhile Text.isBlank) := by
  have hblank : gap.blank.blank = gap.blank := by cases gap <;> rfl
  rw [bodyFrom, if_pos hc]
  clear hc
  induction rest with
  | nil => rfl
  | cons d rest ih =>
    cases hd : Text.isBlank d with
    | true => rw [bodyFrom, if_pos hd, hblank, List.dropWhile_cons_of_pos hd, ih]
    | false => rw [List.dropWhile_cons_of_neg (by simp [hd])]

/-- What blanks come to before the next character that is none. -/
theorem unescaped_blank (hgap : gap ≠ .due) (hrest : ∀ c ∈ rest.head?, Text.isBlank c = false) :
    unescaped (bodyFrom (.outside gap.blank) rest) =
      (if gap = .none ∨ rest = [] then [] else [' ']) ++ unescaped (bodyFrom (.outside .possible) rest) := by
  cases rest with
  | nil => simp [bodyFrom]
  | cons c rest =>
    have hc := hrest c rfl
    have hpossible : bodyFrom (.outside .possible) (c :: rest) = escape c ++ bodyFrom (afterOutside c) rest := bodyFrom_outside (by simp) hc
    rw [hpossible]
    cases gap with
    | none => simp [Gap.blank, bodyFrom, hc]
    | possible => simp [Gap.blank, bodyFrom, hc, unescaped_plain]
    | due => exact absurd rfl hgap

/-- Only a text without characters has no segments. -/
theorem segments_eq_nil_iff (cs : List Char) : segments cs = [] ↔ cs = [] := by
  constructor
  · intro h
    rw [← flatMap_chars_segments cs, h]
    rfl
  · rintro rfl
    rw [segments]

/-- The gap after a segment: blanks vanish at the start of the text and after a backslash. -/
def gapAfter (before : Option Segment) : Gap :=
  if before = none ∨ before = some (.other '\\') then .none else .possible

/-- A gap becomes due only at a blank, not after a segment. -/
theorem gapAfter_ne_due (before : Option Segment) : gapAfter before ≠ .due := by
  unfold gapAfter
  split <;> simp

/-- Blanks vanish at the start of the text and right after a backslash only. -/
theorem gapAfter_eq_none_iff (before : Option Segment) : gapAfter before = .none ↔ before = none ∨ before = some (.other '\\') := by
  unfold gapAfter
  split <;> simp [*]

/-- With its escapes taken off, the body of a literal is the text with its runs of blanks collapsed. -/
theorem unescaped_bodyFrom (before : Option Segment) (cs : List Char) :
    unescaped (bodyFrom (.outside (gapAfter before)) cs) = collapsed before (segments cs) := by
  fun_induction segments cs generalizing before with
  | case1 => rfl
  | case2 c rest hc ih =>
    have hhead : ∀ d ∈ (rest.dropWhile Text.isBlank).head?, Text.isBlank d = false := by
      intro d hd
      have hnot := List.head?_dropWhile_not Text.isBlank rest
      rw [hd] at hnot
      simpa using hnot
    have hafter : gapAfter (some (.blanks (c :: rest.takeWhile Text.isBlank))) = .possible := by simp [gapAfter]
    rw [bodyFrom_blanks hc, unescaped_blank (gapAfter_ne_due before) hhead, collapsed, ← ih, hafter]
    simp only [gapAfter_eq_none_iff, segments_eq_nil_iff, or_assoc]
  | case3 c rest hc hquote n hn ih =>
    have hplace : afterOutside c = .inside c false := if_pos hquote
    have hescape : c ≠ '\\' := by rintro rfl; revert hquote; decide
    have hafter : gapAfter (some (.literal (c :: rest.take n))) = .possible := by simp [gapAfter]
    rw [bodyFrom_outside (gapAfter_ne_due before) (by simpa using hc), unescaped_escape, hplace, unescaped_closed hescape hn, ← hafter, ih]
    rfl
  | case4 c rest hc hquote hn =>
    have hplace : afterOutside c = .inside c false := if_pos hquote
    rw [bodyFrom_outside (gapAfter_ne_due before) (by simpa using hc), unescaped_escape, hplace, unescaped_open hn]
    simp [collapsed, Segment.chars]
  | case5 c rest hc hquote ih =>
    have hplace : afterOutside c = .outside (gapAfter (some (.other c))) := by
      rw [afterOutside, if_neg hquote, gapAfter]
      by_cases hescape : c = '\\' <;> simp [hescape]
    rw [bodyFrom_outside (gapAfter_ne_due before) (by simpa using hc), unescaped_escape, hplace, ih]
    rfl

end

/-- The literal that spells a text is one string constant, and nothing else. Without its quotes and its escapes it is the text, but for the runs
of blanks between literals: each is one space, and nothing at the start, at the end and right after a backslash. -/
theorem literal_spells (text : String) (line : Int) (uri : String) (column : Int) :
    Token.ofText (literal text) line uri column = [{ value := literal text, kind := .stringLiteral, line, column, uri }] ∧
    unescaped (body text).toList = collapsed none (segments text.toList) ∧
    (segments text.toList).flatMap Segment.chars = text.toList := by
  refine ⟨?_, ?_, flatMap_chars_segments text.toList⟩
  · rw [Token.ofText, ← List.append_nil (literal text).toList, (starts_literal text).scan_eq, scan_nil, String.ofList_toList]
  · rw [body, String.toList_ofList]
    exact unescaped_bodyFrom none text.toList

end Prepass.Stringize
