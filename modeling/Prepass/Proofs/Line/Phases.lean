import Mathlib
import Prepass.Line.Splice

/-!
# Lines by translation phases

The logical lines of a source as C has them, phase by phase: every backslash before a newline is deleted together with the newline
(`spliced`), then every comment becomes a space (`uncomment`), and then the text is cut at the newlines that are left, and lines of nothing
but blanks are dropped (`logicalTexts`). Texts are compared up to blanks outside literals, by squeezing them (`squeeze`).

Comments are also taken off loosely: newlines between the star and the slash that close a block comment are passed over, and a slash that
ends the whole text is lost.
-/

namespace Prepass

/-! ## Literals -/

/-- The quotes around literals. -/
inductive Quote where
  | double
  | single
  deriving DecidableEq, Repr

/-- The character of a quote. -/
def Quote.char : Quote → Char
  | double => '"'
  | single => Text.apostrophe

/-- The quote that a character is. -/
def Quote.ofChar? (c : Char) : Option Quote :=
  if c = '"' then some double else if c = Text.apostrophe then some single else none

/-- Where a character stands: in code, in a literal, or after a backslash in one. -/
inductive Spot where
  | code
  | literal (q : Quote)
  | escaped (q : Quote)
  deriving DecidableEq, Repr

/-- Where the next character stands. -/
def Spot.next : Spot → Char → Spot
  | code, c =>
    match Quote.ofChar? c with
    | some q => literal q
    | none => code
  | literal q, c => if c = '\\' then escaped q else if c = q.char then code else literal q
  | escaped q, _ => literal q

/-- A blank in code opens no literal. -/
theorem Spot.next_blank {c : Char} (h : Text.isBlank c = true) : Spot.code.next c = .code := by
  have hdouble : c ≠ '"' := by
    rintro rfl
    revert h
    decide
  have hsingle : c ≠ Text.apostrophe := by
    rintro rfl
    revert h
    decide
  simp [next, Quote.ofChar?, hdouble, hsingle]

namespace Phases

/-! ## The phases -/

/-- The text with a newline for each pair of a carriage return and a newline. -/
def unifyEnds : List Char → List Char
  | [] => []
  | c :: rest => if c = '\r' ∧ rest.head? = some '\n' then unifyEnds rest else c :: unifyEnds rest

/-- The text without the pairs of a backslash and a newline. -/
def spliced : List Char → List Char
  | [] => []
  | [c] => [c]
  | c :: d :: rest => if c = '\\' ∧ d = '\n' then spliced rest else c :: spliced (d :: rest)

/-- What follows the slash that closes a block comment right after a star. Loosely, newlines before the slash are passed over. -/
def closing? (loose : Bool) (cs : List Char) : Option (List Char) :=
  match if loose then cs.dropWhile (· = '\n') else cs with
  | '/' :: rest => some rest
  | _ => none

/-- What follows a block comment after its opening: it ends at the first star that a slash closes it after. -/
def afterComment (loose : Bool) : List Char → List Char
  | [] => []
  | c :: rest =>
    match if c = '*' then closing? loose rest else none with
    | some more => more
    | none => afterComment loose rest

/-- What follows the close of a comment is shorter than the text. -/
theorem length_closing?_lt {loose : Bool} {cs rest : List Char} (h : closing? loose cs = some rest) : rest.length < cs.length := by
  have hle : (if loose then cs.dropWhile (· = '\n') else cs).length ≤ cs.length := by
    split
    · exact (List.dropWhile_sublist _).length_le
    · exact Nat.le_refl _
  unfold closing? at h
  split at h
  · rename_i heq
    cases h
    rw [heq] at hle
    exact hle
  · cases h

/-- What follows a comment is no longer than the text. -/
theorem length_afterComment_le (loose : Bool) (cs : List Char) : (afterComment loose cs).length ≤ cs.length := by
  fun_induction afterComment loose cs with
  | case1 => exact Nat.le_refl _
  | case2 c rest more h =>
    split at h
    · exact Nat.le_succ_of_le (Nat.le_of_lt (length_closing?_lt h))
    · cases h
  | case3 c rest h ih => exact Nat.le_succ_of_le ih

/-- The text with a space for each comment. Comments begin in code only, and a newline outside a comment ends a literal that is open.
Loosely, a slash at the very end is lost. -/
def uncomment (loose : Bool) (spot : Spot) : List Char → List Char
  | [] => []
  | c :: rest =>
    if c = '\n' then c :: uncomment loose .code rest
    else if spot = .code ∧ c = '/' then
      match rest with
      | [] => if loose then [] else [c]
      | d :: more =>
        if d = '/' then ' ' :: uncomment loose .code (more.dropWhile (· ≠ '\n'))
        else if d = '*' then ' ' :: uncomment loose .code (afterComment loose more)
        else c :: uncomment loose .code (d :: more)
    else c :: uncomment loose (spot.next c) rest
termination_by cs => cs.length
decreasing_by
  · simp
  · have := (List.dropWhile_sublist (fun c => decide (c ≠ '\n')) (l := more)).length_le
    simp only [List.length_cons]
    omega
  · have := length_afterComment_le loose more
    simp only [List.length_cons]
    omega
  · simp
  · simp

section

variable {loose : Bool} {spot : Spot} {c : Char} {rest : List Char}

end

/-! ## Texts up to blanks -/

/-- A text as it is squeezed: its characters, latest first, whether blanks have come after them, and where the next character stands. -/
structure Squeezed where
  latest : List Char := []
  gap : Bool := false
  spot : Spot := .code

namespace Squeezed

/-- One more character. Blanks in code wait for a character that is none, and become one space before it. -/
def add (s : Squeezed) (c : Char) : Squeezed :=
  if s.spot = .code ∧ Text.isBlank c then { s with gap := true }
  else { latest := c :: (if s.gap ∧ s.latest ≠ [] then ' ' :: s.latest else s.latest), spot := s.spot.next c }

/-- The squeezed text without blanks at its end. -/
def text (s : Squeezed) : List Char :=
  Text.trimEnd s.latest.reverse

/-- The characters of a text, squeezed. -/
def ofChars (cs : List Char) : Squeezed :=
  cs.foldl add {}

end Squeezed

/-- A text with one space for the blanks between two characters outside literals, and without the blanks around it. -/
def squeeze (cs : List Char) : List Char :=
  (Squeezed.ofChars cs).text

/-- A physical line with the newline that ends it. -/
def IsPhysicalLine (line : List Char) : Prop :=
  ∃ body, line = body ++ ['\n'] ∧ '\n' ∉ body

instance (line : List Char) : Decidable (IsPhysicalLine line) :=
  decidable_of_iff (line.getLast? = some '\n' ∧ '\n' ∉ line.dropLast) <| by
    constructor
    · rintro ⟨hlast, hbody⟩
      exact ⟨line.dropLast, (List.dropLast_append_getLast? _ hlast).symm, hbody⟩
    · rintro ⟨body, rfl, hbody⟩
      simpa using hbody

/-- The text without the given character at its end. -/
def dropEnd (c : Char) (cs : List Char) : List Char :=
  if cs.getLast? = some c then cs.dropLast else cs

/-- Dropping a character brings no newline in. -/
theorem newline_notMem_dropEnd {c : Char} {cs : List Char} (h : '\n' ∉ cs) : '\n' ∉ dropEnd c cs := by
  unfold dropEnd
  split
  · exact fun hmem => h (List.mem_of_mem_dropLast hmem)
  · exact h

/-- The ends of lines are unified line by line. -/
theorem unifyEnds_line {body : List Char} (h : '\n' ∉ body) (more : List Char) :
    unifyEnds (body ++ '\n' :: more) = dropEnd '\r' body ++ '\n' :: unifyEnds more := by
  induction body with
  | nil => simp [unifyEnds, dropEnd]
  | cons c rest ih =>
    obtain ⟨hc, hrest⟩ := not_or.mp (List.mem_cons.not.mp h)
    rw [List.cons_append, unifyEnds, ih hrest]
    cases rest with
    | nil => by_cases hr : c = '\r' <;> simp [hr, dropEnd]
    | cons d rest =>
      have hd : d ≠ '\n' := fun hd => hrest (by simp [hd])
      by_cases hr : (d :: rest).getLast? = some '\r'
      · simp [dropEnd, hr, hd]
      · simp [dropEnd, hr, hd]

/-- A newline after a backslash goes, and any other stays. -/
theorem spliced_line {body : List Char} (h : '\n' ∉ body) (more : List Char) :
    spliced (body ++ '\n' :: more) = dropEnd '\\' body ++ ((if body.getLast? = some '\\' then [] else ['\n']) ++ spliced more) := by
  induction body with
  | nil => cases more <;> simp [spliced, dropEnd]
  | cons c rest ih =>
    obtain ⟨hc, hrest⟩ := not_or.mp (List.mem_cons.not.mp h)
    cases rest with
    | nil =>
      by_cases hb : c = '\\'
      · simp [spliced, dropEnd, hb]
      · have := ih hrest
        simp only [List.nil_append] at this
        simp [spliced, dropEnd, hb, this]
    | cons d rest =>
      have hd : d ≠ '\n' := fun hd => hrest (by simp [hd])
      have := ih hrest
      rw [List.cons_append] at this
      simp only [List.cons_append, spliced, hd, and_false, if_false, this]
      by_cases hb : (d :: rest).getLast? = some '\\'
      · simp [dropEnd, hb]
      · simp [dropEnd, hb]

/-- The body of a physical line lacks a carriage return at its end, and then a backslash, which says that the line is continued. -/
theorem physicalBody_line (body : List Char) :
    physicalBody (body ++ ['\n']) = (dropEnd '\\' (dropEnd '\r' body), decide ((dropEnd '\r' body).getLast? = some '\\')) := by
  have hdrop (c : Char) (cs : List Char) : (if cs.reverse.head? = some c then cs.reverse.tail else cs.reverse) = (dropEnd c cs).reverse := by
    unfold dropEnd
    rw [List.head?_reverse]
    split <;> simp
  unfold physicalBody
  simp only [List.reverse_append, List.reverse_cons, List.reverse_nil, List.nil_append, List.cons_append, List.head?_cons, if_true,
    List.tail_cons, hdrop]
  generalize dropEnd '\r' body = b
  by_cases hb : b.getLast? = some '\\'
  · simp [hb, dropEnd]
  · simp [hb, dropEnd]

/-- What a physical line contributes to the text: its characters, and a newline unless it is continued. -/
theorem spliced_unifyEnds {line : List Char} (h : IsPhysicalLine line) (more : List Char) :
    spliced (unifyEnds (line ++ more)) =
      (physicalBody line).1 ++ ((if (physicalBody line).2 then [] else ['\n']) ++ spliced (unifyEnds more)) := by
  obtain ⟨body, rfl, hbody⟩ := h
  rw [List.append_assoc, List.singleton_append, unifyEnds_line hbody, physicalBody_line, spliced_line (newline_notMem_dropEnd hbody)]
  simp

/-- The body of a physical line has no newline. -/
theorem newline_notMem_physicalBody {line : List Char} (h : IsPhysicalLine line) : '\n' ∉ (physicalBody line).1 := by
  obtain ⟨body, rfl, hbody⟩ := h
  rw [physicalBody_line]
  exact newline_notMem_dropEnd (newline_notMem_dropEnd hbody)

/-! ## Squeezing -/

namespace Squeezed

variable {s : Squeezed} {c : Char}

/-- A blank in code waits. -/
theorem add_blank (hspot : s.spot = .code) (hc : Text.isBlank c = true) : s.add c = { s with gap := true } :=
  if_pos ⟨hspot, hc⟩

/-- A character leads on whether or not it is squeezed out. -/
@[simp]
theorem spot_add (s : Squeezed) (c : Char) : (s.add c).spot = s.spot.next c := by
  unfold add
  split
  · rename_i h
    rw [h.1, Spot.next_blank h.2]
  · rfl

/-- A blank in code counts as a space. -/
theorem add_space (hspot : s.spot = .code) (hc : Text.isBlank c = true) : s.add ' ' = s.add c := by
  rw [add_blank hspot hc, add_blank hspot (by decide)]

/-- After a space in code another space does not matter. -/
theorem add_space_add_space (h : (s.add ' ').spot = .code) : (s.add ' ').add ' ' = s.add ' ' := by
  have hspot : s.spot = .code := by
    rw [spot_add] at h
    revert h
    cases s.spot with
    | code => simp
    | literal q => cases q <;> decide
    | escaped q => cases q <;> decide
  rw [add_blank h (by decide), add_blank hspot (by decide)]

/-- All characters are blanks when those before the last one and the last one are. -/
theorem blank_add : (∀ d ∈ (s.add c).latest, Text.isBlank d = true) ↔
    (∀ d ∈ s.latest, Text.isBlank d = true) ∧ Text.isBlank c = true := by
  have hspace : Text.isBlank ' ' = true := by decide
  unfold add
  split
  · rename_i h
    simp [h.2]
  · by_cases hgap : s.gap = true ∧ s.latest ≠ []
    · simp [hgap, hspace, and_comm]
    · simp [hgap, and_comm]

/-- Squeezed characters are all blank just when those before and those read are. -/
theorem blank_foldl (cs : List Char) (s : Squeezed) : (∀ d ∈ (cs.foldl add s).latest, Text.isBlank d = true) ↔
    (∀ d ∈ s.latest, Text.isBlank d = true) ∧ ∀ c ∈ cs, Text.isBlank c = true := by
  induction cs generalizing s with
  | nil => simp
  | cons c rest ih => rw [List.foldl_cons, ih, blank_add, List.forall_mem_cons, and_assoc]

/-- Blanks add nothing but blanks. -/
theorem exists_blanks (cs : List Char) (hcs : ∀ c ∈ cs, Text.isBlank c = true) (s : Squeezed) :
    ∃ blanks, (cs.foldl add s).latest = blanks ++ s.latest ∧ ∀ d ∈ blanks, Text.isBlank d = true := by
  induction cs generalizing s with
  | nil => exact ⟨[], rfl, by simp⟩
  | cons c rest ih =>
    obtain ⟨hc, hrest⟩ := List.forall_mem_cons.mp hcs
    obtain ⟨blanks, hlatest, hblanks⟩ := ih hrest (s.add c)
    rw [List.foldl_cons, hlatest]
    have hspace : Text.isBlank ' ' = true := by decide
    unfold add
    split
    · exact ⟨blanks, rfl, hblanks⟩
    · by_cases hgap : s.gap = true ∧ s.latest ≠ []
      · refine ⟨blanks ++ [c, ' '], by simp [hgap], ?_⟩
        intro d hd
        rcases List.mem_append.mp hd with hd | hd
        · exact hblanks d hd
        · rcases List.mem_pair.mp hd with rfl | rfl
          · exact hc
          · exact hspace
      · refine ⟨blanks ++ [c], by simp [hgap], ?_⟩
        intro d hd
        rcases List.mem_append.mp hd with hd | hd
        · exact hblanks d hd
        · exact List.mem_singleton.mp hd ▸ hc

/-- A squeezed text is its characters without the blanks at its end. -/
theorem text_eq (s : Squeezed) : s.text = (s.latest.dropWhile Text.isBlank).reverse := by
  rw [text, Text.trimEnd, List.reverse_reverse]

end Squeezed

/-- Blanks at the end of a text do not matter. -/
theorem squeeze_trimEnd (cs : List Char) : squeeze (Text.trimEnd cs) = squeeze cs := by
  have hsplit : cs = Text.trimEnd cs ++ cs.rtakeWhile Text.isBlank := (List.rdropWhile_append_rtakeWhile ..).symm
  obtain ⟨blanks, hlatest, hblanks⟩ := Squeezed.exists_blanks (cs.rtakeWhile Text.isBlank) (fun c hc => List.mem_rtakeWhile_imp hc)
    (Squeezed.ofChars (Text.trimEnd cs))
  rw [squeeze, squeeze, Squeezed.text_eq, Squeezed.text_eq]
  conv_rhs => rw [hsplit, Squeezed.ofChars, List.foldl_append]
  have hdrop : (blanks ++ (Squeezed.ofChars (Text.trimEnd cs)).latest).dropWhile Text.isBlank =
      (Squeezed.ofChars (Text.trimEnd cs)).latest.dropWhile Text.isBlank := List.dropWhile_append_of_pos hblanks
  rw [← hdrop, ← hlatest]
  rfl

/-- Nothing is left of a text of blanks only. -/
theorem squeeze_eq_nil_iff (cs : List Char) : squeeze cs = [] ↔ ∀ c ∈ cs, Text.isBlank c = true := by
  rw [squeeze, Squeezed.text_eq, List.reverse_eq_nil_iff, List.dropWhile_eq_nil_iff, Squeezed.ofChars, Squeezed.blank_foldl]
  simp

/-- The squeezed lines of a text whose first line has begun. -/
def textsFrom (s : Squeezed) : List Char → List (List Char)
  | [] => [s.text]
  | c :: rest => if c = '\n' then s.text :: textsFrom {} rest else textsFrom (s.add c) rest

end Phases

end Prepass
