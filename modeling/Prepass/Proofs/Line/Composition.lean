import Mathlib
import Prepass.Proofs.Line.Continuation

/-!
# Sources one after another

A source may be cut between two physical lines when the first part ends a logical line: its last physical line is not continued, and it does not
end inside a block comment. At such a boundary nothing is carried over (`Splice.AtBoundary.followedBy_empty`): whatever literal, escape, slash or line
comment was open, the cleaner is back in code, and the line under construction is empty. Reading the second part there does what
reading it on its own does, with its lines further down (`Splice.feed_followedBy`), so the logical lines, the counts, the notices and the
tokens of the whole are those of the two parts (`Splice.ofLines_append`, `Splice.ofLines_boundary`).
-/

namespace Prepass

/-! ## Lines further down -/

namespace LogicalLine

/-- The line as it stands `n` physical lines further down. -/
def later (n : Int) (l : LogicalLine) : LogicalLine :=
  { l with startLine := l.startLine + n, endLine := l.endLine + n, physical := l.physical.map (· + n) }

variable (n : Int) (l : LogicalLine)

@[simp]
theorem latest_later : (l.later n).latest = l.latest := rfl

@[simp]
theorem body_later : (l.later n).body = l.body := rfl

@[simp]
theorem text_later : (l.later n).text = l.text := rfl

@[simp]
theorem category_later : (l.later n).category = l.category := rfl

theorem push_later (c : Char) : (l.later n).push c = (l.push c).later n := rfl

/-- A space is added to a line the same way wherever the line stands. -/
theorem pushSpace_later : (l.later n).pushSpace = l.pushSpace.later n := by
  unfold pushSpace
  rw [latest_later]
  split <;> rfl

/-- A physical line is recorded by its number, which is further down as the line is. -/
theorem addPhysical_later (k : Int) : (l.later n).addPhysical (k + n) = (l.addPhysical k).later n := by
  simp [addPhysical, later]

end LogicalLine

/-- The end of a logical line is the same further down. -/
theorem Cleaner.endLine_later (n : Int) (modes : Modes) (l : LogicalLine) :
    endLine modes (l.later n) = ({ (endLine modes l).1 with line := (endLine modes l).1.line.later n }, (endLine modes l).2) := by
  unfold endLine
  split
  · rfl
  · rw [LogicalLine.pushSpace_later]
  · rw [LogicalLine.push_later]
  · rfl
  · rfl
  · rfl
  · rfl

namespace Cleaning

/-- The cleaner with its line further down. -/
def later (n : Int) (s : Cleaning) : Cleaning :=
  { s with line := s.line.later n }

/-- A character is read the same way wherever the line stands. -/
theorem step_later (n : Int) (s : Cleaning) (c : Char) : (s.later n).step c = (s.step c).later n := by
  obtain ⟨situation, line⟩ := s
  cases situation with
  | within spot =>
    simp only [step, later]
    split
    · rfl
    · cases spot <;> rfl
  | slash =>
    simp only [step, later, LogicalLine.push_later]
    split
    · rfl
    · split <;> rfl
  | lineComment => rfl
  | block =>
    simp only [step, later]
    split <;> rfl
  | star =>
    simp only [step, later, LogicalLine.pushSpace_later]
    split
    · rfl
    · split <;> rfl

/-- So are the characters of a physical line, one after another. -/
theorem foldl_step_later (n : Int) (body : List Char) (s : Cleaning) :
    body.foldl step (s.later n) = (body.foldl step s).later n := by
  induction body generalizing s with
  | nil => rfl
  | cons c rest ih => rw [List.foldl_cons, List.foldl_cons, step_later, ih]

end Cleaning

namespace Splice

/-! ## A source after another one -/

/-- What is read of a source when another one stands before it: its lines stand further down by the physical lines of that one, and what is
kept, counted and told comes after what that one gave. -/
def followedBy (a s : Splice) : Splice where
  earlier := s.earlier.map (·.later a.total) ++ a.earlier
  line := s.line.later a.total
  modes := s.modes
  sloc := a.sloc + s.sloc
  total := a.total + s.total
  continued := s.continued
  latest := s.latest ++ a.latest

variable (a : Splice) {s : Splice}

theorem inBlockComment_followedBy : (a.followedBy s).inBlockComment = s.inBlockComment := rfl

/-- A line is kept behind those of the source before it. -/
theorem keepLine_followedBy : (a.followedBy s).keepLine = a.followedBy s.keepLine := by
  unfold keepLine
  rw [show (a.followedBy s).line.category = s.line.category from LogicalLine.category_later ..]
  split <;> rfl

/-- The number of the physical line that is read next. -/
theorem number_followedBy : (((a.followedBy s).total + 1 : Nat) : Int) = ((s.total + 1 : Nat) : Int) + a.total := by
  show ((a.total + s.total + 1 : Nat) : Int) = _
  push_cast
  omega

/-- A physical line is read the same way behind another source. -/
theorem readLine_followedBy (h : s.Situated) (body : List Char) (continued : Bool) :
    (a.followedBy s).readLine body continued = a.followedBy (s.readLine body continued) := by
  obtain ⟨situation, hmodes⟩ := h
  have hprocess : Cleaner.process s.modes s.line { items := body } = _ := hmodes ▸ process_eq body ⟨situation, s.line⟩
  have hprocess' : Cleaner.process (a.followedBy s).modes (a.followedBy s).line { items := body } = _ :=
    hmodes ▸ process_eq body ((⟨situation, s.line⟩ : Cleaning).later a.total)
  rw [Cleaning.foldl_step_later] at hprocess'
  generalize body.foldl Cleaning.step ⟨situation, s.line⟩ = read at hprocess hprocess'
  have hline := read.line.addPhysical_later a.total (s.total + 1 : Nat)
  rw [← a.number_followedBy] at hline
  unfold readLine
  rw [hprocess, hprocess']
  by_cases hadded : (read.line.latest.take (read.line.latest.length - s.line.latest.length)).any (!Text.isBlank ·) = true
  · refine (if_pos hadded).trans (Eq.trans ?_ (congrArg a.followedBy (if_pos hadded).symm))
    rw [show (read.later a.total).cleaned.line = read.line.later a.total from rfl, hline]
    rfl
  · refine (if_neg hadded).trans (Eq.trans ?_ (congrArg a.followedBy (if_neg hadded).symm))
    rfl

/-- A logical line ends the same way behind another source. -/
theorem endLine_followedBy : (a.followedBy s).endLine = a.followedBy s.endLine := by
  have hended : Cleaner.endLine (a.followedBy s).modes (a.followedBy s).line = _ := Cleaner.endLine_later a.total s.modes s.line
  have hkept (line : LogicalLine) (modes : Modes) (latest : List Notice) :
      ({ a.followedBy s with line := line.later a.total, modes, latest := latest ++ a.latest } : Splice).keepLine =
        a.followedBy ({ s with line, modes, latest } : Splice).keepLine :=
    a.keepLine_followedBy (s := { s with line, modes, latest })
  have hstart : LogicalLine.startingAt ((a.followedBy s).total + 1) = (LogicalLine.startingAt (s.total + 1)).later a.total := by
    simp [LogicalLine.startingAt, LogicalLine.later, followedBy]
    omega
  unfold endLine
  rw [hended]
  obtain ⟨cleaned, wasOpen⟩ := Cleaner.endLine s.modes s.line
  have hlatest : (if wasOpen then .openLiteral :: (a.followedBy s).latest else (a.followedBy s).latest) =
      (if wasOpen then .openLiteral :: s.latest else s.latest) ++ a.latest := by
    cases wasOpen <;> rfl
  dsimp only
  rw [hstart, hlatest]
  exact congrArg (fun kept : Splice => { kept with line := (LogicalLine.startingAt (s.total + 1)).later a.total }) (hkept ..)

/-- One more physical line is read after another source as it is on its own. -/
theorem feed_followedBy (h : s.Situated) (physical : List Char) : (a.followedBy s).feed physical = a.followedBy (s.feed physical) := by
  rw [feed_eq (Prod.mk.eta.symm : physicalBody physical = _), feed_eq (Prod.mk.eta.symm : physicalBody physical = _)]
  rw [a.readLine_followedBy h, a.inBlockComment_followedBy, a.endLine_followedBy]
  split <;> rfl

/-- Physical lines are read the same way behind another source, one after another. -/
theorem foldl_feed_followedBy (h : s.Situated) (lines : List (List Char)) :
    lines.foldl feed (a.followedBy s) = a.followedBy (lines.foldl feed s) := by
  induction lines generalizing s with
  | nil => rfl
  | cons line rest ih => rw [List.foldl_cons, List.foldl_cons, a.feed_followedBy h, ih (h.feed line)]

/-- A source ends the same way behind another one. -/
theorem close_followedBy : (a.followedBy s).close = a.followedBy s.close := by
  have hcontinued : (a.followedBy s).continued = s.continued := rfl
  unfold close
  rw [a.keepLine_followedBy, a.inBlockComment_followedBy, hcontinued]
  cases s.inBlockComment <;> cases s.continued <;> rfl

/-! ## Boundaries -/

/-- Between two logical lines: the cleaner is back in code, and the next line is still empty. -/
structure AtBoundary (s : Splice) : Prop where
  modes_eq : s.modes = Cleaner.initial
  line_eq : s.line = .startingAt (s.total + 1)
  continued_eq : s.continued = false

/-- The end of a logical line leaves nothing open but a block comment. -/
theorem Situated.modes_endLine (h : s.Situated) (hclosed : s.inBlockComment = false) : s.endLine.modes = Cleaner.initial := by
  obtain ⟨situation, hmodes⟩ := h
  rw [Splice.modes_endLine, hmodes]
  cases situation with
  | within spot =>
    rcases spot with _ | q | q
    · rfl
    · cases q <;> rfl
    · rfl
  | slash | lineComment => rfl
  | block | star =>
    rw [inBlockComment, hmodes] at hclosed
    cases hclosed

/-- Ending a logical line does not change whether the last physical line was continued. -/
theorem continued_endLine (s : Splice) : s.endLine.continued = s.continued := by
  obtain ⟨latest, hend⟩ := s.endLine_eq
  rw [hend]
  unfold keepLine
  split <;> rfl

/-- Ending a logical line counts no physical line. -/
theorem total_endLine (s : Splice) : s.endLine.total = s.total := by
  obtain ⟨latest, hend⟩ := s.endLine_eq
  rw [hend, total_keepLine]

/-- Whether a physical line is continued is its own matter. -/
theorem continued_readLine (s : Splice) (body : List Char) (continued : Bool) : (s.readLine body continued).continued = continued := by
  unfold readLine
  dsimp only
  split <;> rfl

/-- A physical line that is not continued, and after which no block comment is open, ends its logical line. -/
theorem Situated.atBoundary_feed (h : s.Situated) {physical : List Char} (hcontinued : (physicalBody physical).2 = false)
    (hclosed : (s.feed physical).inBlockComment = false) : (s.feed physical).AtBoundary := by
  have hread := h.readLine (physicalBody physical).1 false
  have hstops := s.continued_readLine (physicalBody physical).1 false
  have hfeed := s.feed_eq (Prod.ext rfl hcontinued : physicalBody physical = ((physicalBody physical).1, false))
  generalize s.readLine (physicalBody physical).1 false = read at hread hstops hfeed
  cases hopen : read.inBlockComment with
  | true =>
    rw [hfeed, hopen] at hclosed
    exact absurd (hopen.symm.trans hclosed) (by decide)
  | false =>
    rw [hopen] at hfeed
    rw [hfeed]
    refine ⟨hread.modes_endLine hopen, ?_, ?_⟩
    · rw [Bool.false_or, if_neg Bool.false_ne_true, total_endLine]
      rfl
    · rw [Bool.false_or, if_neg Bool.false_ne_true, continued_endLine, hstops]

/-- Before the first line the cleaner is in code. -/
theorem situated_empty : ({} : Splice).Situated :=
  ⟨.within .code, rfl⟩

/-- A source that does not end in a continued line or inside a block comment ends between two logical lines. -/
theorem atBoundary_foldl_feed {lines : List (List Char)} (hcontinued : ∀ line ∈ lines.getLast?, (physicalBody line).2 = false)
    (hclosed : (lines.foldl feed {}).inBlockComment = false) : (lines.foldl feed {}).AtBoundary := by
  rcases List.eq_nil_or_concat lines with rfl | ⟨before, line, rfl⟩
  · exact ⟨rfl, rfl, rfl⟩
  · rw [List.concat_eq_append] at hcontinued hclosed ⊢
    rw [List.foldl_append] at hclosed ⊢
    exact (situated_foldl_feed before situated_empty).atBoundary_feed (hcontinued line (by simp)) hclosed

namespace AtBoundary

variable {a : Splice}

/-- Nothing is carried over a boundary. -/
theorem followedBy_empty (h : a.AtBoundary) : a.followedBy {} = a := by
  have hline : (LogicalLine.startingAt 1).later a.total = a.line := by
    rw [h.line_eq]
    simp [LogicalLine.startingAt, LogicalLine.later, Int.add_comm]
  unfold followedBy
  rw [hline, ← h.modes_eq, ← h.continued_eq]
  rfl

/-- A source that ends at a boundary leaves nothing to keep or to tell. -/
theorem close_eq (h : a.AtBoundary) : a.close = a := by
  have hkept : a.keepLine = a := keepLine_of_empty (by rw [h.line_eq]; rfl)
  have hcomment : a.inBlockComment = false := by rw [inBlockComment, h.modes_eq]; rfl
  unfold close
  dsimp only
  rw [hkept, if_neg (by simp [hcomment]), if_neg (by simp [h.continued_eq])]

end AtBoundary

/-- A comment that is open at the end of a source stays open. -/
theorem inBlockComment_close (s : Splice) : s.close.inBlockComment = s.inBlockComment := by
  obtain ⟨latest, hclose⟩ := s.close_eq
  rw [hclose, inBlockComment, modes_keepLine]
  rfl

/-- The end of a source counts no physical line. -/
theorem total_close (s : Splice) : s.close.total = s.total := by
  obtain ⟨latest, hclose⟩ := s.close_eq
  rw [hclose, total_keepLine]

/-- All physical lines of a source are counted. -/
theorem total_ofLines (lines : List (List Char)) : (ofLines lines).total = lines.length := by
  rw [ofLines, total_close, total_foldl_feed]
  exact Nat.zero_add _

/-- Cut at a boundary, a source is its first part followed by its second. -/
theorem ofLines_append {first : List (List Char)} (hcontinued : ∀ line ∈ first.getLast?, (physicalBody line).2 = false)
    (hclosed : (ofLines first).inBlockComment = false) (second : List (List Char)) :
    ofLines (first ++ second) = (ofLines first).followedBy (ofLines second) := by
  rw [ofLines, inBlockComment_close] at hclosed
  have hboundary := atBoundary_foldl_feed hcontinued hclosed
  have hfirst : ofLines first = first.foldl feed {} := hboundary.close_eq
  calc ofLines (first ++ second)
    _ = (second.foldl feed (first.foldl feed {})).close := by rw [ofLines, List.foldl_append]
    _ = (second.foldl feed ((ofLines first).followedBy {})).close := by rw [hfirst, hboundary.followedBy_empty]
    _ = (ofLines first).followedBy (second.foldl feed {}).close := by rw [foldl_feed_followedBy _ situated_empty, close_followedBy]

end Splice

/-! ## Tokens -/

namespace Token

/-- The token as it stands `n` lines further down. -/
def later (n : Int) (t : Token) : Token :=
  { t with line := t.line + n }

/-- The tokens of a logical line stand where the line stands. -/
theorem ofLogicalLine_later (n : Int) (uri : String) (l : LogicalLine) : ofLogicalLine uri (l.later n) = (ofLogicalLine uri l).map (later n) := by
  unfold ofLogicalLine
  rw [LogicalLine.category_later, LogicalLine.body_later, LogicalLine.text_later]
  split
  · rfl
  · rw [show ofText l.text (l.later n).startLine uri = _ from scan_line l.startLine (l.startLine + n) ..]
    refine List.map_congr_left fun t ht => ?_
    rw [later, Lexer.line_scan t ht]

end Token

/-- The first part of a source may be read on its own when its last physical line is not continued and it does not end inside a block comment.
The logical lines of the source are those of the first part and, further down by its physical lines, those of the second. The counts
are the sums, and the notices follow each other. So do the tokens, without the end mark of the first part, when there is a second one. -/
theorem Splice.ofLines_boundary {first : List (List Char)} (hcontinued : ∀ line ∈ first.getLast?, (physicalBody line).2 = false)
    (hclosed : (ofLines first).inBlockComment = false) (second : List (List Char)) :
    (ofLines (first ++ second)).finished = (ofLines first).finished ++ (ofLines second).finished.map (·.later first.length) ∧
    (ofLines (first ++ second)).sloc = (ofLines first).sloc + (ofLines second).sloc ∧
    (ofLines (first ++ second)).total = (ofLines first).total + (ofLines second).total ∧
    (ofLines (first ++ second)).notices = (ofLines first).notices ++ (ofLines second).notices ∧
    (second ≠ [] → ∀ uri, (Token.ofLines (first ++ second) uri).state =
      (Token.ofLines first uri).state.dropLast ++ (Token.ofLines second uri).state.map (Token.later first.length)) := by
  have happend := ofLines_append hcontinued hclosed second
  have hfinished : (ofLines (first ++ second)).finished =
      (ofLines first).finished ++ (ofLines second).finished.map (·.later first.length) := by
    rw [happend]
    simp [finished, followedBy, total_ofLines]
  refine ⟨hfinished, ?_, ?_, ?_, ?_⟩
  · rw [happend]
    rfl
  · rw [happend]
    rfl
  · rw [happend]
    simp [notices, followedBy]
  · intro hsecond uri
    have hlength : 1 ≤ second.length := List.length_pos_iff.mpr hsecond
    have hend : max ((ofLines (first ++ second)).total : Int) 1 = max ((ofLines second).total : Int) 1 + first.length := by
      rw [total_ofLines, total_ofLines, List.length_append]
      omega
    have htokens : (ofLines (first ++ second)).finished.flatMap (Token.ofLogicalLine uri) =
        (ofLines first).finished.flatMap (Token.ofLogicalLine uri) ++
          ((ofLines second).finished.flatMap (Token.ofLogicalLine uri)).map (Token.later first.length) := by
      rw [hfinished, List.flatMap_append, List.flatMap_map, List.map_flatMap]
      simp only [Token.ofLogicalLine_later]
    unfold Token.ofLines
    dsimp only
    rw [htokens, hend, List.dropLast_concat, List.map_append, List.append_assoc]
    rfl

namespace Splice

/-- A source that closes a comment and ends in a literal that is not closed. -/
def leftOpen : List (List Char) :=
  ["/* a\n".toList, "*/ b \"c // d\n".toList]

/-- A source with a continued line. -/
def goingOn : List (List Char) :=
  ["x \\\n".toList, "y\n".toList]

/-- The first source closes its comment and leaves a literal open, and still the second one is read as if it stood alone. -/
theorem ofLines_boundary_leftOpen :
    (∀ line ∈ leftOpen.getLast?, (physicalBody line).2 = false) ∧ (ofLines leftOpen).inBlockComment = false ∧ goingOn ≠ [] ∧
    (ofLines (leftOpen ++ goingOn)).finished = (ofLines leftOpen).finished ++ (ofLines goingOn).finished.map (·.later leftOpen.length) ∧
    (Token.ofLines (leftOpen ++ goingOn)).state =
      (Token.ofLines leftOpen).state.dropLast ++ (Token.ofLines goingOn).state.map (Token.later leftOpen.length) := by
  have hcontinued : ∀ line ∈ leftOpen.getLast?, (physicalBody line).2 = false := by decide
  have hclosed : (ofLines leftOpen).inBlockComment = false := by cbv
  have hgoingOn : goingOn ≠ [] := by decide
  obtain ⟨hfinished, -, -, -, htokens⟩ := ofLines_boundary hcontinued hclosed goingOn
  exact ⟨hcontinued, hclosed, hgoingOn, hfinished, htokens hgoingOn ""⟩

end Splice

end Prepass
