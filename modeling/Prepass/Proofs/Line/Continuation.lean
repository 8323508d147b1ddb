import Mathlib
import Prepass.Proofs.Line.Cleaning
import Prepass.Proofs.Token.Stream

/-!
# Continued lines

A physical line may be cut anywhere before its end by a backslash and a newline. The characters of the two parts are read one after another
as those of the whole line were, since all that a cleaner is in the middle of outlives the end of a continued line (`Splice.ahead_cut`). From
there on the cut source is read like the other one, one physical line ahead (`Splice.Ahead`), so it has the same logical lines and tokens;
what begins after the line that was cut begins one line later (`Token.ofSource_cut`).
-/

namespace Prepass

open Phases

/-! ## Ends of physical lines -/

/-- The ends of physical lines, without and with a continuation backslash. -/
def lineEnds : List (List Char) :=
  [['\n'], ['\r', '\n'], ['\\', '\n'], ['\\', '\r', '\n']]

/-- The line end `ending` comes after `body`, and no longer one stands there. -/
def EndsLine (body ending : List Char) : Prop :=
  ending ∈ lineEnds ∧ ∀ e ∈ lineEnds, e <:+ body ++ ending → e <:+ ending

instance (body ending : List Char) : Decidable (EndsLine body ending) :=
  inferInstanceAs (Decidable (_ ∧ _))

/-- The end of a line is the end of what stands right before it. -/
theorem EndsLine.of_append {before rest ending : List Char} (h : EndsLine (before ++ rest) ending) : EndsLine rest ending := by
  refine ⟨h.1, fun e he hsuffix => h.2 e he (hsuffix.trans ?_)⟩
  rw [List.append_assoc]
  exact List.suffix_append ..

/-- A character at the end of a line is dropped when it is the one to drop. -/
theorem dropEnd_append (c : Char) (body : List Char) : dropEnd c (body ++ [c]) = body := by
  simp [dropEnd]

/-- Another character at the end of a line stays. -/
theorem dropEnd_of_ne {c : Char} {body : List Char} (h : body.getLast? ≠ some c) : dropEnd c body = body :=
  if_neg h

/-- A body that ends in a character that a longer line end has there would have the longer line end. -/
theorem EndsLine.getLast?_ne {body ending : List Char} (h : EndsLine body ending) {c : Char} (hlonger : c :: ending ∈ lineEnds) :
    body.getLast? ≠ some c := by
  intro hlast
  have hbody := List.dropLast_append_getLast? c hlast
  have hsuffix : c :: ending <:+ body ++ ending := ⟨body.dropLast, by rw [← hbody]; simp⟩
  have hle := (h.2 _ hlonger hsuffix).length_le
  simp at hle

/-- The body of a physical line is what comes before its end, and the end tells whether the line is continued. -/
theorem EndsLine.physicalBody_eq {body ending : List Char} (h : EndsLine body ending) :
    physicalBody (body ++ ending) = (body, decide (ending.head? = some '\\')) := by
  have hending := h.1
  simp only [lineEnds, List.mem_cons, List.not_mem_nil, or_false] at hending
  rcases hending with rfl | rfl | rfl | rfl
  · have hreturn : body.getLast? ≠ some '\r' := h.getLast?_ne (by decide)
    have hescape : body.getLast? ≠ some '\\' := h.getLast?_ne (by decide)
    rw [physicalBody_line, dropEnd_of_ne hreturn, dropEnd_of_ne hescape]
    simpa using hescape
  · have hescape : body.getLast? ≠ some '\\' := h.getLast?_ne (by decide)
    rw [List.append_cons, physicalBody_line, dropEnd_append, dropEnd_of_ne hescape]
    simpa using hescape
  · have hreturn : (body ++ ['\\']).getLast? ≠ some '\r' := by simp
    rw [List.append_cons, physicalBody_line, dropEnd_of_ne hreturn, dropEnd_append]
    simp
  · rw [List.append_cons, List.append_cons, physicalBody_line, dropEnd_append, dropEnd_append]
    simp

/-- A line that is cut ends in a backslash and a newline. -/
theorem endsLine_cut (body : List Char) : EndsLine body ['\\', '\n'] := by
  have hends : ∀ e ∈ lineEnds, ['\\', '\n'] <:+ e → e <:+ ['\\', '\n'] := by decide
  refine ⟨by decide, fun e he hsuffix => ?_⟩
  rcases List.suffix_or_suffix_of_suffix hsuffix (List.suffix_append ..) with hle | hle
  · exact hle
  · exact hends e he hle

/-! ## Physical lines -/

/-- A line feed alone is a physical line. -/
theorem physicalLines_newline (more : List Char) : physicalLines ('\n' :: more) = ['\n'] :: physicalLines more := by
  rw [physicalLines, if_pos rfl]

/-- Up to its first newline a text is one physical line. -/
theorem physicalLines_line {body : List Char} (hbody : '\n' ∉ body) (more : List Char) :
    physicalLines (body ++ '\n' :: more) = (body ++ ['\n']) :: physicalLines more := by
  induction body with
  | nil => exact physicalLines_newline more
  | cons c body ih =>
    obtain ⟨hc, hbody⟩ := not_or.mp (List.mem_cons.not.mp hbody)
    rw [List.cons_append, physicalLines, if_neg (Ne.symm hc), ih hbody]
    rfl

/-- Up to its first line end a text is one physical line. -/
theorem physicalLines_ending {body ending : List Char} (hbody : '\n' ∉ body) (hending : ending ∈ lineEnds) (more : List Char) :
    physicalLines (body ++ (ending ++ more)) = (body ++ ending) :: physicalLines more := by
  have hends : ∀ e ∈ lineEnds, e = e.dropLast ++ ['\n'] ∧ '\n' ∉ e.dropLast := by decide
  obtain ⟨heq, hnewline⟩ := hends ending hending
  have hline := physicalLines_line (List.not_mem_append hbody hnewline) more
  rw [heq]
  simpa using hline

/-- What stands before a place of a text is some whole physical lines and the beginning of one. -/
theorem exists_physicalLines (before : List Char) : ∃ lines first, '\n' ∉ first ∧ lines.length = before.count '\n' ∧
    before = lines.flatten ++ first ∧ ∀ rest, physicalLines (before ++ rest) = lines ++ physicalLines (first ++ rest) := by
  induction before with
  | nil => exact ⟨[], [], List.not_mem_nil, rfl, rfl, fun _ => rfl⟩
  | cons c before ih =>
    obtain ⟨lines, first, hfirst, hlength, hbefore, hlines⟩ := ih
    by_cases hc : c = '\n'
    · subst hc
      refine ⟨['\n'] :: lines, first, hfirst, by simp [hlength], by rw [hbefore]; rfl, fun rest => ?_⟩
      rw [List.cons_append, physicalLines_newline, hlines]
      rfl
    · have hcount : (c :: before).count '\n' = before.count '\n' := List.count_cons_of_ne hc
      cases lines with
      | nil =>
        have hfirst' : '\n' ∉ c :: first := List.not_mem_cons_of_ne_of_not_mem (Ne.symm hc) hfirst
        refine ⟨[], c :: first, hfirst', hlength.trans hcount.symm, by rw [hbefore]; rfl, fun rest => ?_⟩
        rw [hbefore]
        rfl
      | cons line lines =>
        refine ⟨(c :: line) :: lines, first, hfirst, hlength.trans hcount.symm, by rw [hbefore]; rfl, fun rest => ?_⟩
        rw [List.cons_append, physicalLines, if_neg hc, hlines]
        rfl

/-! ## Lines that begin later -/

/-- The number of a physical line after line `n` has been cut. -/
def afterCut (n k : Int) : Int :=
  if n < k then k + 1 else k

theorem afterCut_of_le {n k : Int} (h : k ≤ n) : afterCut n k = k :=
  if_neg (Int.not_lt.mpr h)

namespace LogicalLine

/-- The second line has the characters of the first, and begins where the first does after line `n` has been cut. -/
structure Moved (n : Int) (l l' : LogicalLine) : Prop where
  latest_eq : l'.latest = l.latest
  startLine_eq : l'.startLine = afterCut n l.startLine

namespace Moved

variable {n : Int} {l l' : LogicalLine}

/-- A line that begins no later than the cut stays. -/
theorem of_le (hlatest : l'.latest = l.latest) (hstart : l'.startLine = l.startLine) (h : l.startLine ≤ n) : Moved n l l' :=
  ⟨hlatest, hstart.trans (afterCut_of_le h).symm⟩

/-- Only the characters and the beginnings of the lines count. -/
theorem congr {m m' : LogicalLine} (h : Moved n l l') (hlatest : m.latest = l.latest) (hstart : m.startLine = l.startLine)
    (hlatest' : m'.latest = l'.latest) (hstart' : m'.startLine = l'.startLine) : Moved n m m' :=
  ⟨by rw [hlatest', h.latest_eq, hlatest], by rw [hstart', h.startLine_eq, hstart]⟩

/-- A character added to both lines leaves the second one moved as it was. -/
theorem pushRaw (h : Moved n l l') (c : Char) : Moved n (l.pushRaw c) (l'.pushRaw c) :=
  ⟨congrArg (c :: ·) h.latest_eq, h.startLine_eq⟩

/-- A character added to both lines, perhaps as a space, leaves the second one moved as it was. -/
theorem push (h : Moved n l l') (c : Char) : Moved n (l.push c) (l'.push c) :=
  h.pushRaw _

/-- A space added to both lines leaves the second one moved as it was. -/
theorem pushSpace (h : Moved n l l') : Moved n l.pushSpace l'.pushSpace := by
  unfold LogicalLine.pushSpace
  rw [h.latest_eq]
  split
  · exact h
  · exact h.pushRaw ' '

/-- Lines that begin at different places have the same body. -/
theorem body_eq (h : Moved n l l') : l'.body = l.body := by
  rw [body, body, chars, chars, h.latest_eq]

/-- Lines that begin at different places have the same text. -/
theorem text_eq (h : Moved n l l') : l'.text = l.text :=
  congrArg String.ofList h.body_eq

/-- Lines that begin at different places are of the same category. -/
theorem category_eq (h : Moved n l l') : l'.category = l.category := by
  rw [category, category, h.body_eq]

end Moved

end LogicalLine

/-- The end of a logical line keeps a line moved. -/
theorem Cleaner.endLine_moved {n : Int} {l l' : LogicalLine} (h : l.Moved n l') {modes modes' : Modes} (hmodes : modes' = modes) :
    (endLine modes' l').1.modes = (endLine modes l).1.modes ∧ (endLine modes l).1.line.Moved n (endLine modes' l').1.line := by
  subst hmodes
  unfold endLine
  split
  · exact ⟨rfl, h⟩
  · exact ⟨rfl, h.pushSpace⟩
  · exact ⟨rfl, h.push '/'⟩
  · exact ⟨rfl, h⟩
  · exact ⟨rfl, h⟩
  · exact ⟨rfl, h⟩
  · exact ⟨rfl, h⟩

namespace Cleaning

/-- Two cleaners in the same situation, with lines of which the second is the first after line `n` has been cut. -/
structure Moved (n : Int) (s s' : Cleaning) : Prop where
  situation_eq : s'.situation = s.situation
  line : s.line.Moved n s'.line

variable {n : Int} {s s' : Cleaning}

/-- A character leaves the cleaners in the same situation, and the second line moved as it was. -/
theorem Moved.step (h : Moved n s s') (c : Char) : Moved n (s.step c) (s'.step c) := by
  obtain ⟨situation, line⟩ := s
  obtain ⟨situation', line'⟩ := s'
  obtain ⟨rfl, hline⟩ := h
  have hput (spot : Spot) : (put line spot c).Moved n (put line' spot c) := by
    cases spot with
    | code => exact hline.push c
    | literal q => exact hline.pushRaw c
    | escaped q => exact hline.pushRaw c
  unfold Cleaning.step
  cases situation' with
  | within spot =>
    dsimp only
    split
    · exact ⟨rfl, hline⟩
    · exact ⟨rfl, hput spot⟩
  | slash =>
    dsimp only
    split
    · exact ⟨rfl, hline⟩
    · split
      · exact ⟨rfl, hline⟩
      · exact ⟨rfl, (hline.push '/').push c⟩
  | lineComment => exact ⟨rfl, hline⟩
  | block =>
    dsimp only
    split <;> exact ⟨rfl, hline⟩
  | star =>
    dsimp only
    split
    · exact ⟨rfl, hline.pushSpace⟩
    · split <;> exact ⟨rfl, hline⟩

/-- So do the characters of a physical line, one after another. -/
theorem Moved.foldl (h : Moved n s s') (body : List Char) :
    Moved n (body.foldl Cleaning.step s) (body.foldl Cleaning.step s') := by
  induction body generalizing s s' with
  | nil => exact h
  | cons c rest ih => exact ih (h.step c)

end Cleaning

namespace Splice

/-! ## What a physical line does -/

variable {s s' : Splice} {situation : Situation} {n : Int}

/-- Reading the characters of a physical line. -/
theorem readLine_eq (h : s.modes = situation.modes) (body : List Char) (continued : Bool) :
    ∃ line sloc, s.readLine body continued =
        { s with line, sloc, continued, modes := (body.foldl Cleaning.step ⟨situation, s.line⟩).situation.modes, total := s.total + 1 } ∧
      line.latest = (body.foldl Cleaning.step ⟨situation, s.line⟩).line.latest ∧
      line.startLine = (body.foldl Cleaning.step ⟨situation, s.line⟩).line.startLine := by
  have hprocess := process_eq body ⟨situation, s.line⟩
  unfold readLine
  rw [h, hprocess]
  dsimp only
  split <;> exact ⟨_, _, rfl, rfl, rfl⟩

/-- Keeping a logical line leaves the cleaner alone. -/
@[simp]
theorem modes_keepLine (s : Splice) : s.keepLine.modes = s.modes := by
  unfold keepLine
  split <;> rfl

/-- The end of a logical line. -/
theorem endLine_eq (s : Splice) : ∃ latest, s.endLine =
    { ({ s with line := (Cleaner.endLine s.modes s.line).1.line, modes := (Cleaner.endLine s.modes s.line).1.modes, latest } : Splice).keepLine
      with line := .startingAt (s.total + 1) } :=
  ⟨_, rfl⟩

/-- Ending a logical line changes the modes as the cleaner says. -/
theorem modes_endLine (s : Splice) : s.endLine.modes = (Cleaner.endLine s.modes s.line).1.modes := by
  obtain ⟨latest, hend⟩ := s.endLine_eq
  rw [hend, modes_keepLine]

/-- The end of a source. -/
theorem close_eq (s : Splice) : ∃ latest, s.close = { s.keepLine with latest } :=
  ⟨_, rfl⟩

/-- One more physical line, with the body and the continuation that it has. -/
theorem feed_eq {physical body : List Char} {continued : Bool} (h : physicalBody physical = (body, continued)) :
    s.feed physical = if continued || (s.readLine body continued).inBlockComment then s.readLine body continued
      else (s.readLine body continued).endLine := by
  rw [feed, h]

/-- The cleaner of a source is in a situation. -/
def Situated (s : Splice) : Prop :=
  ∃ situation : Situation, s.modes = situation.modes

/-- Reading a physical line leaves the cleaner in a situation. -/
theorem Situated.readLine (h : s.Situated) (body : List Char) (continued : Bool) : (s.readLine body continued).Situated := by
  obtain ⟨situation, hmodes⟩ := h
  obtain ⟨line, sloc, hread, -, -⟩ := readLine_eq hmodes body continued
  rw [hread]
  exact ⟨_, rfl⟩

/-- Ending a logical line leaves the cleaner in a situation. -/
theorem Situated.endLine (h : s.Situated) : s.endLine.Situated := by
  obtain ⟨situation, hmodes⟩ := h
  have hend : ∃ situation' : Situation, (Cleaner.endLine situation.modes s.line).1.modes = situation'.modes := by
    cases situation with
    | within spot =>
      rcases spot with _ | q | q
      · exact ⟨.within .code, rfl⟩
      · cases q <;> exact ⟨.within .code, rfl⟩
      · exact ⟨.within .code, rfl⟩
    | slash | lineComment => exact ⟨.within .code, rfl⟩
    | block => exact ⟨.block, rfl⟩
    | star => exact ⟨.star, rfl⟩
  rw [Situated, modes_endLine, hmodes]
  exact hend

/-- A physical line, with or without the end of its logical line, leaves the cleaner in a situation. -/
theorem Situated.feed (h : s.Situated) (physical : List Char) : (s.feed physical).Situated := by
  have hread := h.readLine (physicalBody physical).1 (physicalBody physical).2
  unfold Splice.feed
  dsimp only
  split
  · exact hread
  · exact hread.endLine

/-! ## One physical line ahead -/

/-- Two sources of which the second has one more physical line, after line `n` has been cut. -/
structure Ahead (n : Int) (s s' : Splice) : Prop where
  situated : s.Situated
  modes_eq : s'.modes = s.modes
  line : s.line.Moved n s'.line
  earlier : List.Forall₂ (LogicalLine.Moved n) s.earlier s'.earlier
  total_eq : s'.total = s.total + 1
  le_total : n ≤ s.total

namespace Ahead

/-- Reading the same physical line keeps the second source one line ahead. -/
theorem readLine (h : Ahead n s s') (body : List Char) (continued : Bool) :
    Ahead n (s.readLine body continued) (s'.readLine body continued) := by
  have hsituated := h.situated.readLine body continued
  obtain ⟨situation, hmodes⟩ := h.situated
  obtain ⟨line, sloc, hread, hlatest, hstart⟩ := readLine_eq hmodes body continued
  obtain ⟨line', sloc', hread', hlatest', hstart'⟩ := readLine_eq (h.modes_eq.trans hmodes) body continued
  have hfold : Cleaning.Moved n ⟨situation, s.line⟩ ⟨situation, s'.line⟩ := ⟨rfl, h.line⟩
  have hmoved := hfold.foldl body
  rw [hread] at hsituated ⊢
  rw [hread']
  refine ⟨hsituated, ?_, ?_, h.earlier, ?_, ?_⟩
  · exact congrArg Situation.modes hmoved.situation_eq
  · exact hmoved.line.congr hlatest hstart hlatest' hstart'
  · exact congrArg (· + 1) h.total_eq
  · have := h.le_total
    push_cast
    omega

/-- Keeping the line keeps the second source one line ahead. -/
theorem keepLine (h : Ahead n s s') : Ahead n s.keepLine s'.keepLine := by
  unfold Splice.keepLine
  rw [h.line.category_eq]
  split
  · exact h
  · exact ⟨h.situated, h.modes_eq, h.line, .cons h.line h.earlier, h.total_eq, h.le_total⟩

theorem withLine (h : Ahead n s s') {line line' : LogicalLine} (hline : line.Moved n line') {situation : Situation} {modes modes' : Modes}
    (hsituated : modes = situation.modes) (hmodes : modes' = modes) (latest latest' : List Notice) :
    Ahead n { s with line, modes, latest } { s' with line := line', modes := modes', latest := latest' } :=
  ⟨⟨situation, hsituated⟩, hmodes, hline, h.earlier, h.total_eq, h.le_total⟩

/-- Ending the logical line keeps the second source one line ahead. -/
theorem endLine (h : Ahead n s s') : Ahead n s.endLine s'.endLine := by
  have hsituated := h.situated.endLine
  obtain ⟨situation, hmodes⟩ := hsituated
  rw [modes_endLine] at hmodes
  obtain ⟨hmodes', hline⟩ := Cleaner.endLine_moved h.line h.modes_eq
  obtain ⟨latest, hend⟩ := s.endLine_eq
  obtain ⟨latest', hend'⟩ := s'.endLine_eq
  have hkept := (h.withLine hline hmodes hmodes' latest latest').keepLine
  have hstart : (s'.total + 1 : Int) = afterCut n (s.total + 1) := by
    have hle := h.le_total
    rw [afterCut, if_pos (by omega), h.total_eq]
    push_cast
    rfl
  rw [hend, hend']
  exact ⟨hkept.situated, hkept.modes_eq, ⟨rfl, hstart⟩, hkept.earlier, hkept.total_eq, hkept.le_total⟩

/-- Two lines ahead of each other end, or go on, alike. -/
theorem ends (h : Ahead n s s') (continued : Bool) :
    Ahead n (if continued || s.inBlockComment then s else s.endLine) (if continued || s'.inBlockComment then s' else s'.endLine) := by
  have hblock : s'.inBlockComment = s.inBlockComment := by rw [inBlockComment, inBlockComment, h.modes_eq]
  rw [hblock]
  split
  · exact h
  · exact h.endLine

/-- A further physical line keeps the second source one line ahead. -/
theorem feed (h : Ahead n s s') (physical : List Char) : Ahead n (s.feed physical) (s'.feed physical) := by
  rw [feed_eq (Prod.mk.eta.symm : physicalBody physical = _), feed_eq (Prod.mk.eta.symm : physicalBody physical = _)]
  exact (h.readLine _ _).ends _

/-- So do any number of further physical lines. -/
theorem foldl_feed (h : Ahead n s s') (lines : List (List Char)) : Ahead n (lines.foldl Splice.feed s) (lines.foldl Splice.feed s') := by
  induction lines generalizing s s' with
  | nil => exact h
  | cons line rest ih => exact ih (h.feed line)

/-- At the end the second source has one physical line more, and its logical lines are moved. -/
theorem close (h : Ahead n s s') : Ahead n s.close s'.close := by
  have hkept := h.keepLine
  obtain ⟨latest, hclose⟩ := s.close_eq
  obtain ⟨latest', hclose'⟩ := s'.close_eq
  rw [hclose, hclose']
  exact ⟨hkept.situated, hkept.modes_eq, hkept.line, hkept.earlier, hkept.total_eq, hkept.le_total⟩

/-- What depends on the characters and the beginnings of lines is found again in the lines of the second source. -/
theorem map_finished {α : Type} (h : Ahead n s s') {f g : LogicalLine → α} (hfg : ∀ l l', l.Moved n l' → g l' = f l) :
    s'.finished.map g = s.finished.map f := by
  have hfinished : List.Forall₂ (LogicalLine.Moved n) s.finished s'.finished := List.forall₂_reverse_iff.mpr h.earlier
  have hmap : List.Forall₂ (· = ·) (s.finished.map f) (s'.finished.map g) := by
    rw [List.forall₂_map_left_iff, List.forall₂_map_right_iff]
    exact hfinished.imp fun l l' hmoved => (hfg l l' hmoved).symm
  rw [List.forall₂_eq_eq_eq] at hmap
  exact hmap.symm

end Ahead

/-! ## The line that is cut -/

/-- A physical line that is cut is read in two parts as it was read whole. -/
theorem ahead_readLine (hsituated : s.Situated) (hordered : s.Ordered) (first rest : List Char) (continued : Bool) :
    Ahead (s.total + 1) (s.readLine (first ++ rest) continued) ((s.readLine first true).readLine rest continued) := by
  have hwhole := hsituated.readLine (first ++ rest) continued
  obtain ⟨situation, hmodes⟩ := hsituated
  have hstart : s.line.startLine ≤ s.total + 1 := by
    rcases hordered.started with hle | ⟨-, heq⟩ <;> omega
  have hsame : Cleaning.Moved (s.total + 1) ⟨situation, s.line⟩ ⟨situation, s.line⟩ := ⟨rfl, .of_le rfl rfl hstart⟩
  have hfirst := hsame.foldl first
  obtain ⟨line, sloc, hread, hlatest, hbegin⟩ := readLine_eq hmodes (first ++ rest) continued
  obtain ⟨line₁, sloc₁, hread₁, hlatest₁, hbegin₁⟩ := readLine_eq hmodes first true
  rw [List.foldl_append] at hread hlatest hbegin
  generalize first.foldl Cleaning.step ⟨situation, s.line⟩ = read at hfirst hread hlatest hbegin hread₁ hlatest₁ hbegin₁
  have hmodes₁ : (s.readLine first true).modes = read.situation.modes := by rw [hread₁]
  obtain ⟨line₂, sloc₂, hread₂, hlatest₂, hbegin₂⟩ := readLine_eq hmodes₁ rest continued
  have hmid : Cleaning.Moved (s.total + 1) read ⟨read.situation, (s.readLine first true).line⟩ := by
    rw [hread₁]
    exact ⟨rfl, hfirst.line.congr rfl rfl hlatest₁ hbegin₁⟩
  have hmoved := hmid.foldl rest
  have hearlier : ∀ l ∈ s.earlier, l.Moved (s.total + 1) l := fun l hl => .of_le rfl rfl (Int.le_add_one (hordered.within l hl))
  rw [hread] at hwhole ⊢
  rw [hread₂]
  refine ⟨hwhole, ?_, ?_, ?_, ?_, ?_⟩
  · exact congrArg Situation.modes hmoved.situation_eq
  · exact hmoved.line.congr hlatest hbegin hlatest₂ hbegin₂
  · rw [hread₁]
    exact List.forall₂_same.mpr hearlier
  · rw [hread₁]
  · push_cast
    exact Int.le_refl _

/-- After a line that is cut a source is one physical line ahead. -/
theorem ahead_cut (hsituated : s.Situated) (hordered : s.Ordered) {first rest ending : List Char} (hending : EndsLine (first ++ rest) ending) :
    Ahead (s.total + 1) (s.feed (first ++ rest ++ ending)) ((s.feed (first ++ ['\\', '\n'])).feed (rest ++ ending)) := by
  have hfirst : s.feed (first ++ ['\\', '\n']) = s.readLine first true := feed_eq (endsLine_cut first).physicalBody_eq
  rw [hfirst, feed_eq hending.physicalBody_eq, feed_eq hending.of_append.physicalBody_eq]
  exact (ahead_readLine hsituated hordered first rest _).ends _

/-- Every physical line counts. -/
theorem total_feed (s : Splice) (physical : List Char) : (s.feed physical).total = s.total + 1 := by
  unfold feed
  dsimp only
  split
  · exact total_readLine ..
  · obtain ⟨latest, hend⟩ := (s.readLine (physicalBody physical).1 (physicalBody physical).2).endLine_eq
    rw [hend, total_keepLine, total_readLine]

/-- The total after some physical lines is the total before and their number. -/
theorem total_foldl_feed (lines : List (List Char)) (s : Splice) : (lines.foldl feed s).total = s.total + lines.length := by
  induction lines generalizing s with
  | nil => rfl
  | cons line rest ih =>
    rw [List.foldl_cons, ih, total_feed, List.length_cons]
    omega

/-- After any physical lines the cleaner is in a situation. -/
theorem situated_foldl_feed (lines : List (List Char)) (h : s.Situated) : (lines.foldl feed s).Situated := by
  induction lines generalizing s with
  | nil => exact h
  | cons line rest ih => exact ih (h.feed line)

/-- A source that is cut in one of its physical lines is read one line ahead of the source as it was. -/
theorem ahead_ofLines {before rest ending : List Char} (hrest : '\n' ∉ rest) (hending : EndsLine (before ++ rest) ending) (more : List Char) :
    Ahead (before.count '\n' + 1) (ofLines (physicalLines (before ++ (rest ++ (ending ++ more)))))
      (ofLines (physicalLines (before ++ ('\\' :: '\n' :: (rest ++ (ending ++ more)))))) := by
  obtain ⟨lines, first, hfirst, hlength, rfl, hlines⟩ := exists_physicalLines before
  rw [List.append_assoc] at hending
  have hwhole : physicalLines (first ++ (rest ++ (ending ++ more))) = (first ++ rest ++ ending) :: physicalLines more := by
    rw [← List.append_assoc]
    exact physicalLines_ending (List.not_mem_append hfirst hrest) hending.1 more
  have hparts : physicalLines (first ++ ('\\' :: '\n' :: (rest ++ (ending ++ more)))) =
      (first ++ ['\\', '\n']) :: (rest ++ ending) :: physicalLines more := by
    rw [← physicalLines_ending hrest hending.1]
    exact physicalLines_ending hfirst (endsLine_cut first).1 _
  have hsituated : (lines.foldl feed {}).Situated := situated_foldl_feed lines ⟨.within .code, rfl⟩
  have hordered : (lines.foldl feed {}).Ordered := ordered_foldl_feed lines ordered_empty
  have hahead := (ahead_cut hsituated hordered hending.of_append).foldl_feed (physicalLines more)
  rw [hlines, hlines, hwhole, hparts, ofLines, ofLines, List.foldl_append, List.foldl_append, List.foldl_cons, List.foldl_cons,
    List.foldl_cons, ← hlength]
  rw [total_foldl_feed] at hahead
  simpa using hahead.close

end Splice

/-! ## Tokens -/

namespace Token

/-- A token after line `n` of its source has been cut: it stands one line later when it stood after that line, and so does the end mark. -/
def afterCut (n : Int) (t : Token) : Token :=
  if n < t.line ∨ t.kind = .eof then { t with line := t.line + 1 } else t

/-- The line number that a scan starts with is that of all its tokens, and plays no other part. -/
theorem scan_line (line line' : Int) (uri : String) (column : Int) (spaced : Bool) (cs : List Char) :
    Lexer.scan line' uri column spaced cs = (Lexer.scan line uri column spaced cs).map fun t => { t with line := line' } := by
  fun_induction Lexer.scan line uri column spaced cs with
  | case1 => rw [Lexer.scan, List.map_nil]
  | case2 column spaced c rest hblank ih => rw [Lexer.scan, if_pos hblank, ih]
  | case3 column spaced c rest hblank kind length hlex ih =>
    rw [Lexer.scan, if_neg hblank, hlex, List.map_cons]
    exact congrArg _ ih

/-- The tokens of a logical line go where the line goes. -/
theorem ofLogicalLine_moved {n : Int} {l l' : LogicalLine} (h : l.Moved n l') (uri : String) :
    ofLogicalLine uri l' = (ofLogicalLine uri l).map (afterCut n) := by
  have hline : ofLogicalLine uri l' = (ofLogicalLine uri l).map fun t => { t with line := l'.startLine } := by
    unfold ofLogicalLine
    rw [h.category_eq, h.body_eq, h.text_eq]
    split
    · rfl
    · exact scan_line ..
  rw [hline]
  refine List.map_congr_left fun t ht => ?_
  have hkind := kind_ofLogicalLine t ht
  rw [h.startLine_eq, ← line_ofLogicalLine t ht, afterCut, Prepass.afterCut]
  simp only [hkind, or_false]
  split <;> rfl

/-- The tokens of a source that is read one line ahead. -/
theorem ofLines_ahead {n : Int} {lines lines' : List (List Char)} (h : (Splice.ofLines lines).Ahead n (Splice.ofLines lines')) (hn : 1 ≤ n)
    (uri : String) : (ofLines lines' uri).state = (ofLines lines uri).state.map (afterCut n) := by
  have htokens := h.map_finished fun l l' hmoved => ofLogicalLine_moved hmoved uri
  have hend : max ((Splice.ofLines lines').total : Int) 1 = max ((Splice.ofLines lines).total : Int) 1 + 1 := by
    have htotal := h.total_eq
    have hle := h.le_total
    omega
  unfold ofLines
  generalize Splice.ofLines lines = s at htokens hend ⊢
  generalize Splice.ofLines lines' = s' at htokens hend ⊢
  dsimp only
  rw [List.map_append, List.map_flatMap, List.flatMap_def, List.flatMap_def, htokens, List.map_singleton, afterCut, if_pos (.inr rfl), hend]

end Token

/-- The logical lines of the text of a source. -/
def LogicalLine.ofSource (text : String) : List LogicalLine :=
  (Splice.ofLines (physicalLines text.toList)).finished

/-- A physical line may be cut by a backslash and a newline anywhere before its end: the logical lines have the same texts and categories,
and the tokens are the same. Logical lines and tokens that begin after the line that was cut begin one line later, and so does the end
mark. -/
theorem Token.ofSource_cut {before rest ending : String} (hrest : '\n' ∉ rest.toList)
    (hending : EndsLine (before ++ rest).toList ending.toList) (more uri : String) :
    (LogicalLine.ofSource (before ++ "\\\n" ++ rest ++ ending ++ more)).map (fun l => (l.text, l.category, l.startLine)) =
      (LogicalLine.ofSource (before ++ rest ++ ending ++ more)).map
        (fun l => (l.text, l.category, Prepass.afterCut (before.toList.count '\n' + 1) l.startLine)) ∧
    (ofSource (before ++ "\\\n" ++ rest ++ ending ++ more) uri).state =
      (ofSource (before ++ rest ++ ending ++ more) uri).state.map (afterCut (before.toList.count '\n' + 1)) := by
  rw [String.toList_append] at hending
  have hahead := Splice.ahead_ofLines hrest hending more.toList
  have hcut : (before ++ "\\\n" ++ rest ++ ending ++ more).toList =
      before.toList ++ '\\' :: '\n' :: (rest.toList ++ (ending.toList ++ more.toList)) := by
    simp [String.toList_append]
  have hwhole : (before ++ rest ++ ending ++ more).toList = before.toList ++ (rest.toList ++ (ending.toList ++ more.toList)) := by
    simp [String.toList_append]
  refine ⟨?_, ?_⟩
  · rw [LogicalLine.ofSource, LogicalLine.ofSource, hcut, hwhole]
    refine hahead.map_finished fun l l' hmoved => ?_
    rw [hmoved.text_eq, hmoved.category_eq, hmoved.startLine_eq]
  · rw [ofSource, ofSource, hcut, hwhole]
    exact ofLines_ahead hahead (by omega) uri

/-- A continued line that is cut between the star and the slash that close a comment. -/
theorem Token.ofSource_cut_comment :
    '\n' ∉ "/ c ".toList ∧ EndsLine ("a\nb /* x *" ++ "/ c ").toList "\\\r\n".toList ∧
    (LogicalLine.ofSource ("a\nb /* x *" ++ "\\\n" ++ "/ c " ++ "\\\r\n" ++ "d\ne\n")).map (fun l => (l.text, l.category, l.startLine)) =
      (LogicalLine.ofSource ("a\nb /* x *" ++ "/ c " ++ "\\\r\n" ++ "d\ne\n")).map
        (fun l => (l.text, l.category, Prepass.afterCut 2 l.startLine)) ∧
    (ofSource ("a\nb /* x *" ++ "\\\n" ++ "/ c " ++ "\\\r\n" ++ "d\ne\n")).state =
      (ofSource ("a\nb /* x *" ++ "/ c " ++ "\\\r\n" ++ "d\ne\n")).state.map (afterCut 2) := by
  have hrest : '\n' ∉ "/ c ".toList := by decide
  have hending : EndsLine ("a\nb /* x *" ++ "/ c ").toList "\\\r\n".toList := by decide
  have hline : (("a\nb /* x *".toList.count '\n' : Nat) : Int) + 1 = 2 := by decide
  have hcut := ofSource_cut hrest hending "d\ne\n" ""
  rw [hline] at hcut
  exact ⟨hrest, hending, hcut⟩

end Prepass
