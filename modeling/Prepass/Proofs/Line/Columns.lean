import Mathlib
import Prepass.Proofs.Line.Retention

/-!
# Columns of a logical line

The text of a logical line is drawn from the physical line it begins on, and from those that continuations add to it (`continuedText`). Up
to the first comment it has the characters of that text one by one, at the same columns, but for blanks in code, which are spaces there
(`Phases.spaced`). A slash that is held back comes in its place as soon as the character after it is read, or at the end of the line
(`LogicalLine.Drawn`); nothing else depends on what follows. All finished lines of a source are drawn so
(`Splice.drawn_ofLines`).
-/

namespace Prepass

/-- The characters of a physical line without its line end and a continuation backslash. -/
def contentOf (line : List Char) : List Char :=
  (physicalBody line).1

/-- The content of the first of some physical lines, and of the next ones as long as they are continued. -/
def continuedText : List (List Char) → List Char
  | [] => []
  | line :: rest => contentOf line ++ if (physicalBody line).2 then continuedText rest else []

/-- A character of the beginning of a text stands at the same place in the text. -/
theorem getElem?_of_begins {first whole : List Char} (h : first <+: whole) {k : Nat} {c : Char} (hc : first[k]? = some c) :
    whole[k]? = some c := by
  obtain ⟨rest, rfl⟩ := h
  rw [List.getElem?_append_left (List.getElem?_eq_some_iff.mp hc).1]
  exact hc

/-- The number of blanks that a text begins with. -/
def indent (cs : List Char) : Nat :=
  (cs.takeWhile Text.isBlank).length

section

variable {cs first rest : List Char} {k : Nat} {c : Char}

/-- Where the blanks end that a text begins with, its first other character stands. -/
theorem getElem?_indent (cs : List Char) : cs[indent cs]? = (Text.trimStart cs).head? := by
  rw [List.head?_eq_getElem?, Text.trimStart, indent]
  induction cs with
  | nil => rfl
  | cons c rest ih => cases hc : Text.isBlank c <;> simp [hc, ih]

/-- The first character after the blanks is none. -/
theorem isBlank_at_indent (hc : cs[indent cs]? = some c) : Text.isBlank c = false := by
  rw [getElem?_indent] at hc
  have hnot := List.head?_dropWhile_not Text.isBlank cs
  rw [show cs.dropWhile Text.isBlank = Text.trimStart cs from rfl, hc] at hnot
  exact hnot

/-- All characters before that place are blank. -/
theorem isBlank_before_indent (hk : k < indent cs) (hc : cs[k]? = some c) : Text.isBlank c = true := by
  have hblanks := List.takeWhile_prefix Text.isBlank (l := cs)
  rw [List.prefix_iff_getElem?.mp hblanks k hk] at hc
  cases hc
  exact List.mem_takeWhile_imp (List.getElem_mem hk)

/-- Blanks before a text are part of its indent. -/
theorem indent_append_of_blank (h : ∀ c ∈ first, Text.isBlank c = true) (rest : List Char) :
    indent (first ++ rest) = first.length + indent rest := by
  rw [indent, List.takeWhile_append_of_pos h, List.length_append]
  rfl

/-- What follows a character that is no blank does not matter. -/
theorem indent_append (hc : first[indent first]? = some c) (rest : List Char) : indent (first ++ rest) = indent first := by
  have hlt : (first.takeWhile Text.isBlank).length < first.length := (List.getElem?_eq_some_iff.mp hc).1
  rw [indent, List.takeWhile_append, if_neg (Nat.ne_of_lt hlt)]
  rfl

/-- Two texts that agree up to the first character of one of them that is no blank have the same blanks before it. -/
theorem indent_eq_of_begins {d : Char} (h : first.take (indent cs + 1) <+: cs) (hc : cs[indent cs]? = some c) (hd : first[indent first]? = some d) :
    indent first = indent cs ∧ d = c := by
  have hsame : ∀ k ≤ indent cs, ∀ e, first[k]? = some e → cs[k]? = some e := fun k hk e he =>
    getElem?_of_begins h (by rwa [List.getElem?_take_of_lt (Nat.lt_succ_of_le hk)])
  rcases Nat.lt_trichotomy (indent first) (indent cs) with hlt | heq | hgt
  · have hblank := isBlank_before_indent hlt (hsame _ (Nat.le_of_lt hlt) d hd)
    rw [isBlank_at_indent hd] at hblank
    cases hblank
  · rw [heq] at hd
    exact ⟨heq, Option.some_inj.mp ((hsame _ (Nat.le_refl _) d hd).symm.trans hc)⟩
  · have he := List.getElem?_eq_getElem (Nat.lt_trans hgt (List.getElem?_eq_some_iff.mp hd).1)
    have hnot := isBlank_at_indent (hsame _ (Nat.le_refl _) _ he)
    rw [isBlank_before_indent hgt he] at hnot
    cases hnot

end

namespace Phases

/-- A comment begins at a place of a text, when none begins before: a slash in code stands there, and another slash or a star after it. -/
def CommentAt (cs : List Char) (k : Nat) : Prop :=
  spotAfter (cs.take k) = .code ∧ cs[k]? = some '/' ∧ (cs[k + 1]? = some '/' ∨ cs[k + 1]? = some '*')

instance (cs : List Char) (k : Nat) : Decidable (CommentAt cs k) :=
  inferInstanceAs (Decidable (_ ∧ _))

section

variable {cs before : List Char} {c : Char} {spot : Spot} {k m : Nat}

/-- A slash in code and the character after it begin a comment when that is another slash or a star. -/
theorem exists_commentAt (hslash : endsInSlash (cs.take m) = true) (hc : cs[m]? = some '/' ∨ cs[m]? = some '*') :
    ∃ k, m = k + 1 ∧ CommentAt cs k := by
  obtain ⟨first, hfirst, hcode⟩ := exists_of_endsInSlash hslash
  have hm : m < cs.length := hc.elim (fun hc => (List.getElem?_eq_some_iff.mp hc).1) fun hc => (List.getElem?_eq_some_iff.mp hc).1
  have hlength : m = first.length + 1 := by
    have hlengths := congrArg List.length hfirst
    rwa [List.length_take_of_le (Nat.le_of_lt hm), List.length_append, List.length_singleton] at hlengths
  subst hlength
  refine ⟨first.length, rfl, ?_, ?_, hc⟩
  · rw [← Nat.min_eq_left (Nat.le_add_right first.length 1), ← List.take_take, hfirst, List.take_left]
    exact hcode
  · rw [← List.getElem?_take_of_lt (Nat.lt_succ_self _), hfirst, List.getElem?_append_right (Nat.le_refl _), Nat.sub_self]
    rfl

/-- A blank that becomes a space takes up the same place. -/
@[simp]
theorem length_spaced (spot : Spot) (cs : List Char) : (spaced spot cs).length = cs.length := by
  induction cs generalizing spot with
  | nil => rfl
  | cons c rest ih => simp [spaced, ih]

/-- A blank in code that becomes a space leaves what follows where it stands. -/
theorem next_spacedChar (spot : Spot) (c : Char) : spot.next (spacedChar spot c) = spot.next c := by
  unfold spacedChar
  split
  · rename_i h
    rw [h.1, Spot.next_blank h.2, Spot.next_blank (by decide)]
  · rfl

/-- A text leads to the same place with spaces for its blanks. -/
theorem foldl_next_spaced (spot : Spot) (cs : List Char) : (spaced spot cs).foldl Spot.next spot = cs.foldl Spot.next spot := by
  induction cs generalizing spot with
  | nil => rfl
  | cons c rest ih => rw [spaced, List.foldl_cons, List.foldl_cons, next_spacedChar, ih]

/-- What a text begins with, it begins with when blanks become spaces. -/
theorem prefix_spaced (h : before <+: cs) : spaced spot before <+: spaced spot cs := by
  obtain ⟨rest, rfl⟩ := h
  rw [spaced_append]
  exact List.prefix_append _ _

/-- A text keeps its leading blanks. -/
theorem indent_spaced (cs : List Char) : indent (spaced .code cs) = indent cs := by
  induction cs with
  | nil => rfl
  | cons c rest ih =>
    cases hc : Text.isBlank c with
    | true =>
      have hspace : Text.isBlank ' ' = true := by decide
      have hchar : spacedChar .code c = ' ' := if_pos ⟨rfl, hc⟩
      simp only [indent] at ih ⊢
      simp [spaced, hchar, hspace, hc, Spot.next_blank hc, ih]
    | false =>
      have hchar : spacedChar .code c = c := if_neg (by simp [hc])
      simp [indent, spaced, hchar, hc]

/-- The first characters of a text become spaces whatever follows them. -/
theorem take_spaced (spot : Spot) (cs : List Char) (k : Nat) : (spaced spot cs).take k = spaced spot (cs.take k) := by
  induction cs generalizing spot k with
  | nil => simp [spaced]
  | cons c rest ih =>
    cases k with
    | zero => simp [spaced]
    | succ k => simp [spaced, ih]

/-- Each character stands where it stood, and is a space when it was a blank in code. -/
theorem getElem?_spaced (spot : Spot) (cs : List Char) (k : Nat) :
    (spaced spot cs)[k]? = cs[k]?.map (spacedChar ((cs.take k).foldl Spot.next spot)) := by
  induction cs generalizing spot k with
  | nil => rfl
  | cons c rest ih =>
    cases k with
    | zero => rfl
    | succ k =>
      rw [spaced, List.getElem?_cons_succ, List.getElem?_cons_succ, ih]
      rfl

/-- A character that is no blank is the one that stood there, and a blank was one. -/
theorem exists_of_getElem?_spaced (h : (spaced spot cs)[k]? = some c) :
    ∃ d, cs[k]? = some d ∧ Text.isBlank d = Text.isBlank c ∧ (Text.isBlank c = false → d = c) := by
  rw [getElem?_spaced, Option.map_eq_some_iff] at h
  obtain ⟨d, hd, rfl⟩ := h
  refine ⟨d, hd, ?_⟩
  unfold spacedChar
  split
  · rename_i hblank
    exact ⟨hblank.2, fun hspace => absurd hspace (by decide)⟩
  · exact ⟨rfl, fun _ => rfl⟩

/-- Where no blank stands in code, the characters are those that stood there. -/
theorem drop_spaced (h : ∀ k ≥ m, ∀ c, (spaced .code cs)[k]? = some c → Text.isBlank c = true → spotAfter ((spaced .code cs).take k) ≠ .code) :
    (spaced .code cs).drop m = cs.drop m := by
  refine List.ext_getElem? fun k => ?_
  rw [List.getElem?_drop, List.getElem?_drop]
  have hplace := getElem?_spaced .code cs (m + k)
  cases hc : cs[m + k]? with
  | none => rw [hplace, hc, Option.map_none]
  | some c =>
    rw [hc, Option.map_some, spacedChar] at hplace
    rw [hplace]
    split
    · rename_i hblank
      rw [if_pos hblank] at hplace
      refine absurd ?_ (h (m + k) (Nat.le_add_right ..) ' ' hplace (by decide))
      rw [take_spaced, spotAfter, foldl_next_spaced]
      exact hblank.1
    · rfl

end

end Phases

open Phases

/-! ## Reading up to a comment -/

namespace Cleaning

/-- A new cleaner that has read some characters into a line that begins on a physical line. -/
def read (n : Int) (cs : List Char) : Cleaning :=
  cs.foldl step ⟨.within .code, .startingAt n⟩

/-- A cleaner that has read characters without a comment: the line has all of them but a slash that is held back. -/
structure Keeps (s : Cleaning) (before : List Char) : Prop where
  situation_eq : s.situation = .after before
  chars_eq : s.line.chars = spaced .code (settled before)

variable {s : Cleaning} {before : List Char} {c : Char} {n : Int}

/-- One more character, which begins no comment together with a slash before it. -/
theorem Keeps.step (h : s.Keeps before) (hquiet : endsInSlash before = true → c ≠ '/' ∧ c ≠ '*') : (s.step c).Keeps (before ++ [c]) := by
  obtain ⟨situation, line⟩ := s
  obtain ⟨rfl, hkept⟩ := h
  obtain ⟨line', added, hstep, hsettled, hchars⟩ := step_after line hquiet
  refine ⟨congrArg situation hstep, ?_⟩
  rw [hstep, hchars, hsettled, spaced_append, ← hkept]
  rfl

/-- As long as no comment begins, all characters are kept. -/
theorem keeps_take {cs : List Char} {m : Nat} (hm : m ≤ cs.length) (hquiet : ∀ k, k + 1 < m → ¬CommentAt cs k) :
    (read n (cs.take m)).Keeps (cs.take m) := by
  induction m with
  | zero => exact ⟨rfl, rfl⟩
  | succ m ih =>
    have hbefore := ih (Nat.le_of_succ_le hm) fun k hk => hquiet k (Nat.lt_succ_of_lt hk)
    have hread : read n (cs.take m ++ [cs[m]]) = (read n (cs.take m)).step cs[m] := by
      rw [read, List.foldl_append]
      rfl
    rw [List.take_succ_eq_append_getElem hm, hread]
    refine hbefore.step fun hslash => not_or.mp fun hc => ?_
    have hnext : cs[m]? = some '/' ∨ cs[m]? = some '*' := by
      rw [List.getElem?_eq_getElem hm]
      exact hc.imp (congrArg some) (congrArg some)
    obtain ⟨k, rfl, hcomment⟩ := exists_commentAt hslash hnext
    exact hquiet k (Nat.lt_succ_self _) hcomment

/-- What is read first stays at the beginning of the line. -/
theorem exists_chars_read (n : Int) (before cs : List Char) :
    ∃ more, (read n (before ++ cs)).line.chars = (read n before).line.chars ++ more := by
  obtain ⟨added, hadded⟩ := exists_added_foldl cs (read n before)
  refine ⟨added.reverse, ?_⟩
  rw [read, List.foldl_append]
  show (cs.foldl Cleaning.step (read n before)).line.chars = _
  rw [hadded, LogicalLine.withMore, LogicalLine.chars, List.reverse_append]
  rfl

/-- Reading does not move the line. -/
theorem startLine_read (n : Int) (cs : List Char) : (read n cs).line.startLine = n := by
  obtain ⟨added, hadded⟩ := exists_added_foldl cs ⟨.within .code, .startingAt n⟩
  rw [read, hadded]
  rfl

end Cleaning

/-! ## Directive lines -/

namespace LogicalLine

variable {l : LogicalLine}

/-- The text of a line stands at the beginning of the line. -/
theorem body_begins (l : LogicalLine) : l.body <+: l.chars :=
  List.rdropWhile_prefix _ _

/-- The first character of a directive that is no blank is a number sign. -/
theorem getElem?_of_directive (h : l.category = .directive) : l.body[indent l.body]? = some '#' := by
  rw [getElem?_indent]
  unfold category at h
  split at h
  · cases h
  · rename_i c rest heq
    rw [heq]
    by_cases hc : c = '#'
    · rw [hc, List.head?_cons]
    · rw [if_neg hc] at h
      cases h

end LogicalLine

/-! ## Lines drawn from a text -/

/-- What may come to a line after its text: nothing in code or in a literal, and the slash that is held back. -/
def Situation.Leaves : Situation → List Char → Prop
  | within _, tail => tail = []
  | slash, tail => tail <+: ['/']
  | _, _ => True

/-- A line is drawn from a text when it begins on a physical line with what reading the text gives, and nothing else but the end of a comment
that is still open, or of the line, adds to it. -/
structure LogicalLine.Drawn (l : LogicalLine) (n : Int) (text : List Char) : Prop where
  startLine_eq : l.startLine = n
  chars_eq : ∃ tail, l.chars = (Cleaning.read n text).line.chars ++ tail ∧ (Cleaning.read n text).situation.Leaves tail

namespace LogicalLine.Drawn

variable {l : LogicalLine} {n : Int} {text : List Char} {m : Nat}

/-- What is settled of a text without comments stands at the beginning of the line. -/
theorem begins_settled (h : l.Drawn n text) (hm : m ≤ text.length) (hquiet : ∀ k, k + 1 < m → ¬CommentAt text k) :
    spaced .code (settled (text.take m)) <+: l.chars := by
  obtain ⟨tail, hchars, -⟩ := h.chars_eq
  obtain ⟨more, hmore⟩ := Cleaning.exists_chars_read n (text.take m) (text.drop m)
  rw [List.take_append_drop] at hmore
  rw [hchars, hmore, (Cleaning.keeps_take hm hquiet).chars_eq, List.append_assoc]
  exact List.prefix_append _ _

/-- A line drawn from a text without comments has no more than the text. -/
theorem chars_begin (h : l.Drawn n text) (hquiet : ∀ k, k + 1 < text.length → ¬CommentAt text k) : l.chars <+: spaced .code text := by
  have hread := Cleaning.keeps_take (n := n) (Nat.le_refl _) hquiet
  rw [List.take_length] at hread
  obtain ⟨tail, hchars, htail⟩ := h.chars_eq
  have hheld : tail <+: spaced (spotAfter (settled text)) (held text) := by
    rw [hread.situation_eq] at htail
    by_cases hends : endsInSlash text = true
    · rw [Situation.after_of_endsInSlash hends] at htail
      obtain ⟨first, rfl, hcode⟩ := exists_of_endsInSlash hends
      rw [settled, held, if_pos hends, if_pos hends, List.dropLast_concat, hcode]
      exact htail
    · rw [Situation.after_of_not_endsInSlash hends] at htail
      rw [show tail = [] from htail]
      exact List.nil_prefix
  have hwhole : spaced .code text = spaced .code (settled text) ++ spaced (spotAfter (settled text)) (held text) := by
    rw [spotAfter, ← spaced_append, settled_append_held]
  rw [hchars, hread.chars_eq, hwhole]
  exact (List.prefix_append_right_inj _).mpr hheld

/-- Where no comment begins before, the line has the characters of the text at their places, with the blanks in code as spaces. -/
theorem getElem?_eq (h : l.Drawn n text) (hm : m ≤ text.length) (hquiet : ∀ k < m, ¬CommentAt text k) {k : Nat} (hk : k < m) {c : Char}
    (hc : l.chars[k]? = some c) : (spaced .code text)[k]? = some c := by
  rcases Nat.lt_or_eq_of_le hm with hlt | rfl
  · -- one more character is read, so that a slash held back before it is settled
    have hline := h.begins_settled (m := m + 1) hlt fun k hk => hquiet k (Nat.lt_of_succ_lt_succ hk)
    have hsplit := settled_append_held (text.take (m + 1))
    have hsettled : k < (spaced .code (settled (text.take (m + 1)))).length := by
      have hheld : (held (text.take (m + 1))).length ≤ 1 := by
        unfold held
        split <;> simp
      have hlength := congrArg List.length hsplit
      rw [List.length_append, List.length_take_of_le hlt] at hlength
      rw [length_spaced]
      omega
    have htake : settled (text.take (m + 1)) <+: text.take (m + 1) := ⟨_, hsplit⟩
    have htext := htake.trans (List.take_prefix (m + 1) text)
    rw [List.prefix_iff_getElem?.mp (prefix_spaced htext) k hsettled, ← List.prefix_iff_getElem?.mp hline k hsettled, hc]
  · exact getElem?_of_begins (h.chars_begin fun k hk => hquiet k (Nat.lt_of_succ_lt hk)) hc

/-- Where no comment begins before, the line begins like the text, with the blanks in code as spaces. -/
theorem take_begins (h : l.Drawn n text) (hm : m ≤ text.length) (hquiet : ∀ k < m, ¬CommentAt text k) :
    l.chars.take m <+: spaced .code text := by
  refine List.prefix_iff_getElem?.mpr fun k hk => h.getElem?_eq hm hquiet ?_ ?_
  · exact Nat.lt_of_lt_of_le hk (List.length_take_le ..)
  · rw [List.getElem_take]
    exact List.getElem?_eq_getElem _

/-- Where no comment begins at the first character that is no blank, a directive has its number sign there. -/
theorem number_sign (h : l.Drawn n text) (hl : l.category = .directive) (hnone : ¬CommentAt text (indent text)) :
    text[indent text]? = some '#' ∧ indent l.body = indent text := by
  have hsign := LogicalLine.getElem?_of_directive hl
  have hbefore : ∀ k < indent text, ¬CommentAt text k := fun k hk hat => absurd (isBlank_before_indent hk hat.2.1) (by decide)
  have htext : indent text < text.length := by
    -- otherwise the text is blank, and the line has no more
    by_contra hle
    have hbegins := l.body_begins.trans (h.chars_begin fun k hk => hbefore k (by omega))
    obtain ⟨d, hd, hsame, -⟩ := exists_of_getElem?_spaced (getElem?_of_begins hbegins hsign)
    have hlt := (List.getElem?_eq_some_iff.mp hd).1
    rw [isBlank_before_indent (by omega) hd] at hsame
    exact absurd hsame (by decide)
  have hbegins : l.body.take (indent text + 1) <+: spaced .code text := by
    refine (l.body_begins.take _).trans (h.take_begins htext fun k hk => ?_)
    rcases Nat.lt_or_eq_of_le (Nat.le_of_lt_succ hk) with hlt | rfl
    · exact hbefore k hlt
    · exact hnone
  obtain ⟨c, hfirst⟩ : ∃ c, text[indent text]? = some c := ⟨_, List.getElem?_eq_getElem htext⟩
  have hspaced : (spaced .code text)[indent text]? = some c := by
    rw [getElem?_spaced, hfirst, Option.map_some, spacedChar, if_neg (by simp [isBlank_at_indent hfirst])]
  rw [← indent_spaced] at hbegins hspaced
  obtain ⟨hindent, hchar⟩ := indent_eq_of_begins hbegins hspaced hsign
  rw [indent_spaced] at hindent
  exact ⟨hfirst.trans (congrArg some hchar.symm), hindent⟩

end LogicalLine.Drawn

/-! ## Whole sources -/

/-- All of some physical lines are continued. -/
def Continued (stretch : List (List Char)) : Prop :=
  ∀ line ∈ stretch, (physicalBody line).2 = true

section

variable {stretch : List (List Char)}

/-- Physical lines are all continued when the last one is and those before it are. -/
theorem continued_concat {line : List Char} : Continued (stretch ++ [line]) ↔ Continued stretch ∧ (physicalBody line).2 = true := by
  simp [Continued, or_imp, forall_and]

/-- As long as all physical lines are continued, the text goes on. -/
theorem continuedText_append (h : Continued stretch) (more : List (List Char)) :
    continuedText (stretch ++ more) = stretch.flatMap contentOf ++ continuedText more := by
  induction stretch with
  | nil => rfl
  | cons line rest ih =>
    obtain ⟨hline, hrest⟩ := List.forall_mem_cons.mp h
    rw [List.cons_append, continuedText, if_pos hline, ih hrest, List.flatMap_cons, List.append_assoc]

/-- The text of continued lines is all of their contents. -/
theorem continuedText_eq_flatMap (h : Continued stretch) : continuedText stretch = stretch.flatMap contentOf := by
  have hnil := continuedText_append h []
  rwa [List.append_nil, continuedText, List.append_nil] at hnil

/-- So it is when one more line comes last, continued or not. -/
theorem continuedText_concat (h : Continued stretch) (line : List Char) :
    continuedText (stretch ++ [line]) = (stretch ++ [line]).flatMap contentOf := by
  rw [continuedText_append h, List.flatMap_append, List.flatMap_singleton, continuedText, continuedText, ite_self, List.append_nil]

/-- A physical line that is not continued ends the text. -/
theorem continuedText_append_of_not (h : ¬Continued stretch) (more : List (List Char)) :
    continuedText (stretch ++ more) = continuedText stretch := by
  induction stretch with
  | nil => exact absurd (List.forall_mem_nil _) h
  | cons line rest ih =>
    rw [List.cons_append, continuedText, continuedText]
    split
    · rename_i hline
      rw [ih fun hrest => h (List.forall_mem_cons.mpr ⟨hline, hrest⟩)]
    · rfl

/-- The text of physical lines is part of their contents. -/
theorem continuedText_prefix (stretch : List (List Char)) : continuedText stretch <+: stretch.flatMap contentOf := by
  induction stretch with
  | nil => exact List.prefix_rfl
  | cons line rest ih =>
    rw [continuedText, List.flatMap_cons, List.prefix_append_right_inj]
    split
    · exact ih
    · exact List.nil_prefix

/-- The first character of a text that is no blank stands on a physical line that only blank and continued ones come before. -/
theorem exists_line_of_indent {lines : List (List Char)} {c : Char} (h : (continuedText lines)[indent (continuedText lines)]? = some c) :
    ∃ earlier line more, lines = earlier ++ line :: more ∧ Continued earlier ∧ (∀ d ∈ earlier.flatMap contentOf, Text.isBlank d = true) ∧
      (contentOf line)[indent (contentOf line)]? = some c ∧
      indent (continuedText lines) = (earlier.flatMap contentOf).length + indent (contentOf line) := by
  induction lines with
  | nil => cases h
  | cons line rest ih =>
    rw [continuedText] at h ⊢
    generalize hgoes : (if (physicalBody line).2 = true then continuedText rest else []) = goes at h ⊢
    by_cases hblank : ∀ d ∈ contentOf line, Text.isBlank d = true
    · rw [indent_append_of_blank hblank, List.getElem?_append_right (Nat.le_add_right _ _), Nat.add_sub_cancel_left] at h
      split at hgoes
      · rename_i hcontinued
        subst hgoes
        obtain ⟨earlier, line', more, rfl, hearlier, hblanks, hc, hindent⟩ := ih h
        refine ⟨line :: earlier, line', more, rfl, List.forall_mem_cons.mpr ⟨hcontinued, hearlier⟩, ?_, hc, ?_⟩
        · rw [List.flatMap_cons]
          exact List.forall_mem_append.mpr ⟨hblank, hblanks⟩
        · rw [indent_append_of_blank hblank, hindent, List.flatMap_cons, List.length_append, Nat.add_assoc]
      · subst hgoes
        cases h
    · have hlt : indent (contentOf line) < (contentOf line).length := by
        by_contra hle
        have hinitial := List.takeWhile_prefix Text.isBlank (l := contentOf line)
        exact hblank (List.takeWhile_eq_self_iff.mp (hinitial.eq_of_length_le (Nat.not_lt.mp hle)))
      have hfirst := List.getElem?_eq_getElem hlt
      rw [indent_append hfirst, List.getElem?_append_left hlt] at h
      refine ⟨[], line, rest, rfl, List.forall_mem_nil _, List.forall_mem_nil _, h, ?_⟩
      rw [indent_append hfirst, List.flatMap_nil, List.length_nil, Nat.zero_add]

end

/-- Inside a block comment. -/
def Situation.Open (situation : Situation) : Prop :=
  (Cleaner.inBlockComment? situation.modes).getD false = true

/-- Nothing comes to a line while a block comment is open. -/
theorem Situation.Open.leaves {situation : Situation} (h : situation.Open) (tail : List Char) : situation.Leaves tail := by
  cases situation with
  | within spot =>
    rcases spot with _ | q | q
    · cases h
    · cases q <;> cases h
    · cases h
  | slash => cases h
  | lineComment | block | star => trivial

/-- At the end of a logical line nothing comes to it but what its text leaves. -/
theorem Situation.leaves_endLine (situation : Situation) {l : LogicalLine} {added : List Char}
    (h : (Cleaner.endLine situation.modes l).1.line = l.withMore added) : situation.Leaves added.reverse := by
  have hadded (more : List Char) (hsame : l.withMore more = l.withMore added) : more = added := by
    have hlatest := congrArg LogicalLine.latest hsame
    exact List.append_cancel_right hlatest
  cases situation with
  | within spot =>
    rw [Cleaner.endLine_within] at h
    rw [← hadded [] h]
    rfl
  | slash =>
    rw [← hadded ['/'] h]
    exact List.prefix_rfl
  | lineComment | block | star => trivial

namespace Splice

/-- The line under construction has come of a stretch of physical lines, the first of which it begins on. -/
structure Reads (s : Splice) (n : Int) (stretch : List (List Char)) : Prop where
  modes_eq : s.modes = (Cleaning.read n (stretch.flatMap contentOf)).situation.modes
  latest_eq : s.line.latest = (Cleaning.read n (stretch.flatMap contentOf)).line.latest
  startLine_eq : s.line.startLine = n

/-- The text of a stretch is all of its characters, unless it ends inside a block comment. -/
def TextEnds (n : Int) (stretch : List (List Char)) : Prop :=
  continuedText stretch = stretch.flatMap contentOf ∨ (Cleaning.read n (continuedText stretch)).situation.Open

namespace Reads

variable {s : Splice} {n : Int} {stretch : List (List Char)}

/-- The characters of one more physical line. -/
theorem readLine (h : s.Reads n stretch) (line : List Char) (continued : Bool) :
    (s.readLine (contentOf line) continued).Reads n (stretch ++ [line]) ∧
      (s.readLine (contentOf line) continued).earlier = s.earlier ∧ (s.readLine (contentOf line) continued).total = s.total + 1 := by
  obtain ⟨read, sloc, hread, hlatest, hstart⟩ := readLine_eq h.modes_eq (contentOf line) continued
  have hbegun := Cleaning.startLine_read n (stretch.flatMap contentOf)
  have hmoved : Cleaning.Moved n (Cleaning.read n (stretch.flatMap contentOf))
      ⟨(Cleaning.read n (stretch.flatMap contentOf)).situation, s.line⟩ :=
    ⟨rfl, .of_le h.latest_eq (h.startLine_eq.trans hbegun.symm) (Int.le_of_eq hbegun)⟩
  have hfold := hmoved.foldl (contentOf line)
  have hmore : (contentOf line).foldl Cleaning.step (Cleaning.read n (stretch.flatMap contentOf)) =
      Cleaning.read n ((stretch ++ [line]).flatMap contentOf) := by
    rw [List.flatMap_append, List.flatMap_singleton, Cleaning.read, Cleaning.read, List.foldl_append]
  rw [hmore] at hfold
  rw [hread]
  refine ⟨⟨congrArg Situation.modes hfold.situation_eq, hlatest.trans hfold.line.latest_eq, ?_⟩, rfl, rfl⟩
  rw [hstart, hfold.line.startLine_eq, Cleaning.startLine_read, afterCut_of_le (Int.le_refl n)]

/-- The line as it comes out, with what comes to it at its end. -/
theorem drawn (h : s.Reads n stretch) (htext : TextEnds n stretch) {added : List Char}
    (hleaves : (Cleaning.read n (stretch.flatMap contentOf)).situation.Leaves added.reverse) :
    (s.line.withMore added).Drawn n (continuedText stretch) := by
  have hmore : (s.line.withMore added).chars = (Cleaning.read n (stretch.flatMap contentOf)).line.chars ++ added.reverse := by
    rw [LogicalLine.chars, LogicalLine.withMore, List.reverse_append, h.latest_eq]
    rfl
  refine ⟨h.startLine_eq, ?_⟩
  rcases htext with htext | hopen
  · exact ⟨added.reverse, by rw [hmore, htext], by rwa [htext]⟩
  · -- what comes after the block comment comes after the text
    obtain ⟨rest, hrest⟩ := continuedText_prefix stretch
    obtain ⟨more, hread⟩ := Cleaning.exists_chars_read n (continuedText stretch) rest
    rw [hrest] at hread
    exact ⟨more ++ added.reverse, by rw [hmore, hread, List.append_assoc], hopen.leaves _⟩

/-- The end of a logical line. -/
theorem endLine (h : s.Reads n stretch) (htext : TextEnds n stretch) (hclosed : s.inBlockComment = false) :
    s.endLine.Reads (s.total + 1) [] ∧ s.endLine.total = s.total ∧
      ∃ l : LogicalLine, l.Drawn n (continuedText stretch) ∧ s.endLine.earlier = l.keptAfter s.earlier := by
  have hmodes := Situated.modes_endLine ⟨_, h.modes_eq⟩ hclosed
  obtain ⟨added, latest, hadded, hend⟩ := s.endLine_eq_added
  rw [h.modes_eq] at hadded
  have hdrawn := h.drawn htext (Situation.leaves_endLine _ hadded)
  rw [hend] at hmodes ⊢
  exact ⟨⟨hmodes, rfl, rfl⟩, rfl, _, hdrawn, rfl⟩

/-- The end of the source, where a slash that is held back is lost. -/
theorem close (h : s.Reads n stretch) (htext : TextEnds n stretch) :
    ∃ l : LogicalLine, l.Drawn n (continuedText stretch) ∧ s.close.earlier = l.keptAfter s.earlier := by
  obtain ⟨latest, hclose⟩ := s.close_eq_kept
  have hleaves : ∀ situation : Situation, situation.Leaves [].reverse := by
    intro situation
    cases situation with
    | within spot => rfl
    | slash => exact List.nil_prefix
    | lineComment | block | star => trivial
  refine ⟨s.line.withMore [], h.drawn htext (hleaves _), ?_⟩
  rw [hclose, LogicalLine.withMore_nil]

end Reads

/-- What has been read of a source: the line under construction has come of the last physical lines, which are all continued unless a block comment
is open at the end of their text, and each finished line is drawn from the text that ends where it begins. -/
structure Drawn (s : Splice) (lines : List (List Char)) : Prop where
  total_eq : s.total = lines.length
  line : ∃ before stretch, lines = before ++ stretch ∧ s.Reads (before.length + 1) stretch ∧
    (Continued stretch ∨ (Cleaning.read (before.length + 1) (continuedText stretch)).situation.Open)
  kept : ∀ l ∈ s.earlier, ∃ before stretch, lines = before ++ stretch ∧ ¬Continued stretch ∧
    l.Drawn (before.length + 1) (continuedText stretch)

namespace Drawn

variable {s : Splice} {lines : List (List Char)}

/-- Before the first line nothing has been drawn. -/
theorem empty : ({} : Splice).Drawn [] where
  total_eq := rfl
  line := ⟨[], [], rfl, ⟨rfl, rfl, rfl⟩, .inl (List.forall_mem_nil _)⟩
  kept := List.forall_mem_nil _

/-- A finished line stays drawn when more physical lines follow. -/
theorem kept_append (h : s.Drawn lines) (more : List (List Char)) : ∀ l ∈ s.earlier, ∃ before stretch, lines ++ more = before ++ stretch ∧
    ¬Continued stretch ∧ l.Drawn (before.length + 1) (continuedText stretch) := by
  intro l hl
  obtain ⟨before, stretch, rfl, hended, hdrawn⟩ := h.kept l hl
  refine ⟨before, stretch ++ more, List.append_assoc .., ?_, ?_⟩
  · exact fun hall => hended fun line hline => hall line (List.mem_append_left _ hline)
  · rwa [continuedText_append_of_not hended]

/-- One more physical line. -/
theorem feed (h : s.Drawn lines) (physical : List Char) : (s.feed physical).Drawn (lines ++ [physical]) := by
  obtain ⟨before, stretch, hlines, hreads, hgoes⟩ := h.line
  obtain ⟨hmore, hearlier, htotal⟩ := hreads.readLine physical (physicalBody physical).2
  have hsplit : lines ++ [physical] = before ++ (stretch ++ [physical]) := by rw [hlines, List.append_assoc]
  have hlength : s.total + 1 = (lines ++ [physical]).length := by rw [h.total_eq, List.length_append, List.length_singleton]
  have hkept := h.kept_append [physical]
  have htext : TextEnds (before.length + 1) (stretch ++ [physical]) := by
    by_cases hall : Continued stretch
    · exact .inl (continuedText_concat hall physical)
    · rw [TextEnds, continuedText_append_of_not hall]
      exact .inr (hgoes.resolve_left hall)
  have hbody : physicalBody physical = (contentOf physical, (physicalBody physical).2) := rfl
  have hfeed := s.feed_eq hbody
  generalize s.readLine (contentOf physical) (physicalBody physical).2 = read at hmore hearlier htotal hfeed
  rw [← hearlier] at hkept
  rw [← htotal] at hlength
  by_cases hcontinued : (physicalBody physical).2 = true
  · rw [hcontinued, Bool.true_or, if_pos rfl] at hfeed
    rw [hfeed]
    refine ⟨hlength, ⟨before, stretch ++ [physical], hsplit, hmore, ?_⟩, hkept⟩
    by_cases hall : Continued stretch
    · exact .inl (continued_concat.mpr ⟨hall, hcontinued⟩)
    · rw [continuedText_append_of_not hall]
      exact .inr (hgoes.resolve_left hall)
  · have hended : ¬Continued (stretch ++ [physical]) := fun hall => hcontinued (continued_concat.mp hall).2
    rw [Bool.not_eq_true] at hcontinued
    rw [hcontinued, Bool.false_or] at hfeed
    cases hopen : read.inBlockComment with
    | true =>
      rw [hopen, if_pos rfl] at hfeed
      rw [hfeed]
      refine ⟨hlength, ⟨before, stretch ++ [physical], hsplit, hmore, .inr (htext.elim (fun heq => ?_) id)⟩, hkept⟩
      rw [heq, Situation.Open, ← hmore.modes_eq]
      exact hopen
    | false =>
      obtain ⟨hnext, hsame, l, hl, hmem⟩ := hmore.endLine htext hopen
      rw [hopen, if_neg Bool.false_ne_true] at hfeed
      rw [hfeed]
      refine ⟨hsame.trans hlength, ⟨lines ++ [physical], [], (List.append_nil _).symm, ?_, .inl (List.forall_mem_nil _)⟩, ?_⟩
      · rwa [← hlength]
      · rw [hmem, LogicalLine.keptAfter]
        split
        · exact hkept
        · exact List.forall_mem_cons.mpr ⟨⟨before, stretch ++ [physical], hsplit, hended, hl⟩, hkept⟩

/-- Further physical lines are drawn in the same way. -/
theorem foldl_feed (h : s.Drawn lines) (more : List (List Char)) : (more.foldl Splice.feed s).Drawn (lines ++ more) := by
  induction more generalizing s lines with
  | nil => rwa [List.append_nil]
  | cons line rest ih =>
    rw [List.append_cons]
    exact ih (h.feed line)

end Drawn

/-- Every finished line of a source is drawn from the text that begins on the physical line where it begins itself. -/
theorem drawn_ofLines (lines : List (List Char)) : ∀ l ∈ (ofLines lines).finished, ∃ before first rest, lines = before ++ first :: rest ∧
    l.Drawn (before.length + 1) (continuedText (first :: rest)) := by
  have hread : (lines.foldl feed {}).Drawn lines := Drawn.empty.foldl_feed lines
  obtain ⟨before, stretch, hlines, hreads, hgoes⟩ := hread.line
  obtain ⟨last, hlast, hearlier⟩ := hreads.close (hgoes.imp_left continuedText_eq_flatMap)
  rw [show (lines.foldl feed {}).close = ofLines lines from rfl, LogicalLine.keptAfter] at hearlier
  have hkept : ∀ l ∈ (lines.foldl feed {}).earlier, ∃ before first rest, lines = before ++ first :: rest ∧
      l.Drawn (before.length + 1) (continuedText (first :: rest)) := by
    intro l hl
    obtain ⟨before', stretch', hlines', hended, hdrawn⟩ := hread.kept l hl
    cases stretch' with
    | nil => exact absurd (List.forall_mem_nil _) hended
    | cons first rest => exact ⟨before', first, rest, hlines', hdrawn⟩
  intro l hl
  rw [finished, List.mem_reverse, hearlier] at hl
  split at hl
  · exact hkept l hl
  · rename_i hblank
    rcases List.mem_cons.mp hl with rfl | hl
    · cases stretch with
      | nil =>
        -- a line that has come of no physical line is empty
        obtain ⟨tail, hchars, rfl⟩ := hlast.chars_eq
        refine absurd ?_ hblank
        rw [LogicalLine.category_eq_blank_iff_latest, List.reverse_eq_nil_iff.mp hchars]
        exact List.forall_mem_nil _
      | cons first rest => exact ⟨before, first, rest, hlines, hlast⟩
    · exact hkept l hl

end Splice

end Prepass
