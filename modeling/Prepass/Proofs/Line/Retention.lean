import Mathlib
import Prepass.Proofs.Line.Accounting

/-!
# Characters kept and physical lines counted

A source without comments loses nothing but blanks, line ends and continuation backslashes, and the physical lines that hold more than blanks are
counted, but for slashes in code that a physical line ends in. Such a slash is held back until the character after it tells that it begins no comment,
and until then it is on no logical line. What has been added to a line is therefore told from the characters before without that slash
(`Phases.settled`): a physical line counts when it adds more than blanks to those. So a slash that is alone on its physical line
is not counted there, and one before a continuation at the end of the source is lost (`Splice.retention_ofLines`).
-/

namespace Prepass

namespace Phases

/-! ## Texts without comments -/

/-- The characters that are no blanks. -/
def visible (cs : List Char) : List Char :=
  cs.filter (!Text.isBlank ·)

/-- Whether a comment begins: at a slash in code, before another slash or a star. A newline ends a literal that is open. -/
def opensComment (spot : Spot) : List Char → Bool
  | [] => false
  | c :: rest =>
    if c = '\n' then opensComment .code rest
    else if spot = .code ∧ c = '/' ∧ (rest.head? = some '/' ∨ rest.head? = some '*') then true
    else opensComment (spot.next c) rest

/-- Where the character after a line without comments stands. -/
def spotAfter (cs : List Char) : Spot :=
  cs.foldl Spot.next .code

/-- Whether a line without comments ends in a slash in code. -/
def endsInSlash (cs : List Char) : Bool :=
  cs.getLast? = some '/' ∧ spotAfter cs.dropLast = .code

/-- The slash in code that a line ends in. -/
def held (cs : List Char) : List Char :=
  if endsInSlash cs then ['/'] else []

/-- A line without a slash in code that it ends in. -/
def settled (cs : List Char) : List Char :=
  if endsInSlash cs then cs.dropLast else cs

/-- A character with a blank in code as a space. -/
def spacedChar (spot : Spot) (c : Char) : Char :=
  if spot = .code ∧ Text.isBlank c = true then ' ' else c

/-- A text with the blanks in code as spaces. -/
def spaced (spot : Spot) : List Char → List Char
  | [] => []
  | c :: rest => spacedChar spot c :: spaced (spot.next c) rest

section

variable {before cs : List Char} {c : Char}

@[simp]
theorem visible_nil : visible [] = [] := rfl

/-- What is visible of two texts is visible of each. -/
@[simp]
theorem visible_append (first second : List Char) : visible (first ++ second) = visible first ++ visible second :=
  List.filter_append first second

/-- Nothing of a text is visible when all of it is blank. -/
theorem visible_eq_nil_iff : visible cs = [] ↔ ∀ c ∈ cs, Text.isBlank c = true := by
  simp [visible]

/-- The second of two texts has its blanks as spaces from where the first one has led to. -/
theorem spaced_append (spot : Spot) (before cs : List Char) :
    spaced spot (before ++ cs) = spaced spot before ++ spaced (before.foldl Spot.next spot) cs := by
  induction before generalizing spot with
  | nil => rfl
  | cons c rest ih => simp [spaced, ih]

/-- A blank that becomes a space is not visible before or after. -/
theorem visible_spaced (spot : Spot) (cs : List Char) : visible (spaced spot cs) = visible cs := by
  induction cs generalizing spot with
  | nil => rfl
  | cons c rest ih =>
    have hchar : visible [spacedChar spot c] = visible [c] := by
      unfold spacedChar
      split
      · rename_i h
        simp [visible, h.2, show Text.isBlank ' ' = true by decide]
      · rfl
    rw [spaced, ← List.singleton_append, visible_append, hchar, ih, ← visible_append, List.singleton_append]

/-- Blanks at the end of a text are not visible. -/
theorem visible_trimEnd (cs : List Char) : visible (Text.trimEnd cs) = visible cs := by
  have hsplit : cs = Text.trimEnd cs ++ cs.rtakeWhile Text.isBlank := (List.rdropWhile_append_rtakeWhile ..).symm
  have hblank : visible (cs.rtakeWhile Text.isBlank) = [] := visible_eq_nil_iff.mpr fun c hc => List.mem_rtakeWhile_imp hc
  conv_rhs => rw [hsplit, visible_append, hblank, List.append_nil]

/-- The last character of a line leads on from where those before it have led to. -/
theorem spotAfter_concat (before : List Char) (c : Char) : spotAfter (before ++ [c]) = (spotAfter before).next c := by
  simp [spotAfter]

/-- A line ends in a slash in code when its last character is one and the characters before it have led into code. -/
theorem endsInSlash_concat : endsInSlash (before ++ [c]) = true ↔ c = '/' ∧ spotAfter before = .code := by
  simp [endsInSlash]

/-- A line that ends in a slash in code has that slash after the rest of it. -/
theorem exists_of_endsInSlash (h : endsInSlash cs = true) : ∃ before, cs = before ++ ['/'] ∧ spotAfter before = .code := by
  rcases List.eq_nil_or_concat cs with rfl | ⟨before, c, rfl⟩
  · simp [endsInSlash] at h
  · rw [List.concat_eq_append] at h ⊢
    obtain ⟨rfl, hspot⟩ := endsInSlash_concat.mp h
    exact ⟨before, rfl, hspot⟩

/-- After a slash in code the line is in code still. -/
theorem spotAfter_of_endsInSlash (h : endsInSlash cs = true) : spotAfter cs = .code := by
  obtain ⟨before, rfl, hspot⟩ := exists_of_endsInSlash h
  rw [spotAfter_concat, hspot]
  rfl

/-- A character that is no slash in code begins no comment, and the next one decides. -/
theorem opensComment_other (hc : c ≠ '\n') {spot : Spot} (h : ¬(spot = .code ∧ c = '/')) :
    opensComment spot (c :: cs) = opensComment (spot.next c) cs := by
  rw [opensComment, if_neg hc, if_neg fun hopens => h ⟨hopens.1, hopens.2.1⟩]

/-- Before a character other than a newline, a slash begins no comment when that character is neither a slash nor a star. -/
theorem opensComment_slash (hc : c ≠ '\n') : opensComment .code ('/' :: c :: cs) = false ↔
    c ≠ '/' ∧ c ≠ '*' ∧ opensComment (Spot.code.next c) cs = false := by
  by_cases hslash : c = '/'
  · simp [opensComment, hslash]
  · by_cases hstar : c = '*'
    · simp [opensComment, hstar]
    · rw [opensComment, if_neg (by decide), if_neg (by simp [hslash, hstar]), show Spot.code.next '/' = .code from rfl,
        opensComment_other hc fun h => hslash h.2]
      simp [hslash, hstar]

/-- A line is what is settled of it and what is held back. -/
theorem settled_append_held (cs : List Char) : settled cs ++ held cs = cs := by
  unfold settled held
  split
  · rename_i h
    obtain ⟨before, rfl, -⟩ := exists_of_endsInSlash h
    simp
  · exact List.append_nil cs

/-- More characters leave what was settled. -/
theorem settled_prefix (before body : List Char) : settled before <+: settled (before ++ body) := by
  have hsettled (cs : List Char) : settled cs <+: cs := ⟨held cs, settled_append_held cs⟩
  rcases List.eq_nil_or_concat body with rfl | ⟨rest, c, rfl⟩
  · rw [List.append_nil]
  · have hrest : before ++ rest <+: settled (before ++ rest.concat c) := by
      rw [List.concat_eq_append, ← List.append_assoc]
      unfold settled
      split
      · simp
      · exact List.prefix_append _ _
    exact (hsettled before).trans ((List.prefix_append before rest).trans hrest)

end

end Phases

open Phases

/-! ## The cleaner outside comments -/

namespace Situation

/-- The situation of a cleaner that has read a line without comments. -/
def after (before : List Char) : Situation :=
  if endsInSlash before then slash else within (spotAfter before)

/-- No comment is open, and none begins in what comes next. -/
def Quiet : Situation → List Char → Prop
  | within spot, cs => opensComment spot cs = false
  | slash, cs => opensComment .code ('/' :: cs) = false
  | _, _ => False

variable {before cs : List Char}

theorem after_of_endsInSlash (h : endsInSlash before = true) : after before = slash := if_pos h

theorem after_of_not_endsInSlash (h : ¬endsInSlash before = true) : after before = within (spotAfter before) := if_neg h

/-- After a line without comments no block comment is open. -/
theorem inBlockComment_after (before : List Char) : (Cleaner.inBlockComment? (after before).modes).getD false = false := by
  unfold after
  split
  · rfl
  · rcases spotAfter before with _ | q | q
    · rfl
    · cases q <;> rfl
    · rfl

/-- A newline ends the line, and the next one begins in code. -/
theorem Quiet.newline {situation : Situation} (h : situation.Quiet ('\n' :: cs)) : (after []).Quiet cs := by
  show opensComment .code cs = false
  cases situation with
  | within spot => simpa [Quiet, opensComment] using h
  | slash => simpa [Quiet, opensComment] using h
  | lineComment | block | star => exact h.elim

/-- One more character, when no comment begins. -/
theorem Quiet.step {c : Char} (h : (after before).Quiet (c :: cs)) (hc : c ≠ '\n') :
    (endsInSlash before = true → c ≠ '/' ∧ c ≠ '*') ∧ (after (before ++ [c])).Quiet cs := by
  have hspot := spotAfter_concat before c
  by_cases hslash : endsInSlash before = true
  · rw [after_of_endsInSlash hslash] at h
    obtain ⟨hcslash, hcstar, hrest⟩ := (opensComment_slash hc).mp h
    have hends : ¬endsInSlash (before ++ [c]) = true := fun h => hcslash (endsInSlash_concat.mp h).1
    rw [after_of_not_endsInSlash hends, hspot, spotAfter_of_endsInSlash hslash]
    exact ⟨fun _ => ⟨hcslash, hcstar⟩, hrest⟩
  · refine ⟨fun hslash' => absurd hslash' hslash, ?_⟩
    rw [after_of_not_endsInSlash hslash] at h
    by_cases hends : endsInSlash (before ++ [c]) = true
    · obtain ⟨rfl, hcode⟩ := endsInSlash_concat.mp hends
      rw [hcode] at h
      rw [after_of_endsInSlash hends]
      exact h
    · have hcode : ¬(spotAfter before = .code ∧ c = '/') := fun h => hends (endsInSlash_concat.mpr h.symm)
      rw [after_of_not_endsInSlash hends, hspot]
      exact (opensComment_other hc hcode).symm.trans h

end Situation

namespace LogicalLine

variable (l : LogicalLine)

/-- A character that is added as it is adds to what is visible when it is. -/
theorem visible_pushRaw (c : Char) : visible (l.pushRaw c).chars = visible l.chars ++ visible [c] := by
  simp [pushRaw, chars]

/-- A character that is added adds to what is visible when it is, whether or not it becomes a space. -/
theorem visible_push (c : Char) : visible (l.push c).chars = visible l.chars ++ visible [c] := by
  rw [push, visible_pushRaw]
  split
  · rename_i hc
    simp [visible, hc, show Text.isBlank ' ' = true by decide]
  · rfl

/-- The text of a logical line lacks no visible character of it. -/
theorem visible_text : visible l.text.toList = visible l.chars := by
  rw [text, String.toList_ofList, body, visible_trimEnd]

/-- A line is kept when its text has characters that are no blanks. -/
theorem keptAfter_eq_visible (earlier : List LogicalLine) :
    l.keptAfter earlier = if visible l.text.toList = [] then earlier else l :: earlier := by
  have hblank : l.category = .blank ↔ visible l.text.toList = [] := by
    rw [category_eq_blank_iff_latest, visible_text, visible_eq_nil_iff]
    simp [chars]
  simp only [keptAfter, hblank]

/-- Characters that are added are visible after those before. -/
theorem visible_withMore (added : List Char) : visible (l.withMore added).chars = visible l.chars ++ visible added.reverse := by
  simp [withMore, chars]

end LogicalLine

/-- The end of a line in code or in a literal adds nothing. -/
theorem Cleaner.endLine_within (spot : Spot) (l : LogicalLine) : (endLine (Situation.within spot).modes l).1 = { modes := initial, line := l } := by
  rcases spot with _ | q | q
  · rfl
  · cases q <;> rfl
  · rfl

namespace Cleaning

/-- A cleaner that has read a line without comments: it has added all of it but a slash that it holds back. -/
structure Follows (s : Cleaning) (before : List Char) : Prop where
  situation_eq : s.situation = .after before
  visible_eq : visible s.line.chars = visible (settled before)

variable {s : Cleaning} {before rest : List Char} {c : Char}

/-- A character that is put on a line comes last on it, as a space when it is a blank in code. -/
theorem chars_put (line : LogicalLine) (spot : Spot) (c : Char) : (put line spot c).chars = line.chars ++ [spacedChar spot c] := by
  cases spot with
  | code => simp [put, LogicalLine.push, LogicalLine.pushRaw, LogicalLine.chars, spacedChar]
  | literal q | escaped q => simp [put, LogicalLine.pushRaw, LogicalLine.chars, spacedChar]

/-- After a text without comments one more character is read that begins none together with a slash before it: what this settles of the text
comes to the line. -/
theorem step_after (line : LogicalLine) (hquiet : endsInSlash before = true → c ≠ '/' ∧ c ≠ '*') : ∃ line' added,
    step ⟨.after before, line⟩ c = ⟨.after (before ++ [c]), line'⟩ ∧ settled (before ++ [c]) = settled before ++ added ∧
      line'.chars = line.chars ++ spaced (spotAfter (settled before)) added := by
  have hspot := spotAfter_concat before c
  by_cases hslash : endsInSlash before = true
  · -- the slash that is held back is added together with the character
    obtain ⟨hcslash, hcstar⟩ := hquiet hslash
    have hends : ¬endsInSlash (before ++ [c]) = true := fun h => hcslash (endsInSlash_concat.mp h).1
    rw [spotAfter_of_endsInSlash hslash] at hspot
    obtain ⟨first, rfl, hcode⟩ := exists_of_endsInSlash hslash
    refine ⟨put (put line .code '/') .code c, ['/', c], ?_, ?_, ?_⟩
    · rw [Situation.after_of_not_endsInSlash hends, hspot]
      simp [step, put, Situation.after_of_endsInSlash hslash, hcslash, hcstar]
    · rw [settled, if_neg hends, settled, if_pos hslash, List.dropLast_concat, List.append_assoc]
      rfl
    · rw [chars_put, chars_put, settled, if_pos hslash, List.dropLast_concat, hcode, List.append_assoc]
      rfl
  · by_cases hends : endsInSlash (before ++ [c]) = true
    · -- a slash in code is held back from now on
      obtain ⟨rfl, hcode⟩ := endsInSlash_concat.mp hends
      refine ⟨line, [], ?_, ?_, (List.append_nil _).symm⟩
      · rw [Situation.after_of_endsInSlash hends]
        simp [step, Situation.after_of_not_endsInSlash hslash, hcode]
      · simp [settled, hslash, hends]
    · have hcode : ¬(spotAfter before = .code ∧ c = '/') := fun h => hends (endsInSlash_concat.mpr h.symm)
      refine ⟨put line (spotAfter before) c, [c], ?_, ?_, ?_⟩
      · rw [Situation.after_of_not_endsInSlash hends, hspot]
        simp [step, Situation.after_of_not_endsInSlash hslash, hcode]
      · simp [settled, hslash, hends]
      · rw [chars_put, settled, if_neg hslash]
        rfl

/-- One more character, when no comment begins. -/
theorem Follows.step (h : s.Follows before) (hc : c ≠ '\n') (hquiet : (Situation.after before).Quiet (c :: rest)) :
    (s.step c).Follows (before ++ [c]) ∧ (Situation.after (before ++ [c])).Quiet rest := by
  obtain ⟨situation, line⟩ := s
  obtain ⟨rfl, hvisible⟩ := h
  obtain ⟨hnone, hrest⟩ := hquiet.step hc
  obtain ⟨line', added, hstep, hsettled, hchars⟩ := step_after line hnone
  refine ⟨⟨congrArg situation hstep, ?_⟩, hrest⟩
  rw [hstep, hchars, hsettled, visible_append, visible_append, visible_spaced, ← hvisible]

/-- The characters of a physical line. -/
theorem Follows.foldl {body : List Char} (h : s.Follows before) (hbody : '\n' ∉ body) (hquiet : (Situation.after before).Quiet (body ++ rest)) :
    (body.foldl Cleaning.step s).Follows (before ++ body) ∧ (Situation.after (before ++ body)).Quiet rest := by
  induction body generalizing s before with
  | nil =>
    rw [List.append_nil]
    exact ⟨h, hquiet⟩
  | cons c body ih =>
    obtain ⟨hc, hbody⟩ := not_or.mp (List.mem_cons.not.mp hbody)
    obtain ⟨hstep, hnext⟩ := h.step (Ne.symm hc) hquiet
    have hrest := ih hstep hbody hnext
    rwa [List.append_assoc] at hrest

end Cleaning

/-! ## Physical lines one by one -/

/-- The physical lines of a text, one by one: the last one may have no newline. -/
@[elab_as_elim]
theorem physicalLines_induction {motive : List Char → Prop} (nil : motive []) (last : ∀ line, line ≠ [] → '\n' ∉ line → motive line)
    (line : ∀ line more, IsPhysicalLine line → motive more → motive (line ++ more)) (text : List Char) : motive text := by
  induction hlength : text.length using Nat.strong_induction_on generalizing text with
  | _ n ih =>
    by_cases hnewline : '\n' ∈ text
    · obtain ⟨body, more, rfl, hbody⟩ := List.eq_append_cons_of_mem hnewline
      rw [List.append_cons]
      refine line _ more ⟨body, rfl, hbody⟩ (ih more.length ?_ more rfl)
      rw [← hlength, List.length_append, List.length_cons]
      omega
    · rcases eq_or_ne text [] with rfl | hne
      · exact nil
      · exact last text hne hnewline

/-- A line with its end is the first of the physical lines of a text that begins with it. -/
theorem physicalLines_append {line : List Char} (h : IsPhysicalLine line) (more : List Char) :
    physicalLines (line ++ more) = line :: physicalLines more := by
  obtain ⟨body, rfl, hbody⟩ := h
  rw [List.append_assoc, List.singleton_append, physicalLines_line hbody]

/-- A text without line ends is one physical line. -/
theorem physicalLines_last {line : List Char} (hne : line ≠ []) (h : '\n' ∉ line) : physicalLines line = [line] := by
  induction line with
  | nil => exact absurd rfl hne
  | cons c rest ih =>
    obtain ⟨hc, hrest⟩ := not_or.mp (List.mem_cons.not.mp h)
    rw [physicalLines, if_neg (Ne.symm hc)]
    cases rest with
    | nil => rfl
    | cons d rest => rw [ih (by simp) hrest]

/-- A text without line ends has none to unify. -/
theorem unifyEnds_of_notMem {cs : List Char} (h : '\n' ∉ cs) : unifyEnds cs = cs := by
  induction cs with
  | nil => rfl
  | cons c rest ih =>
    obtain ⟨hc, hrest⟩ := not_or.mp (List.mem_cons.not.mp h)
    rw [unifyEnds, ih hrest, if_neg]
    rintro ⟨-, hhead⟩
    exact hrest (List.mem_of_head? hhead)

/-- A text without line ends has no two lines to splice. -/
theorem spliced_of_notMem {cs : List Char} (h : '\n' ∉ cs) : spliced cs = cs := by
  induction cs using spliced.induct with
  | case1 => rfl
  | case2 c => rfl
  | case3 c d rest hends ih => exact absurd (by simp [hends.2]) h
  | case4 c d rest hends ih => rw [spliced, if_neg hends, ih fun hmem => h (List.mem_cons_of_mem c hmem)]

/-- The characters of a physical line stand at its beginning. -/
theorem physicalBody_prefix (line : List Char) : (physicalBody line).1 <+: line := by
  have hdrop (c : Char) (r : List Char) : (if r.head? = some c then r.tail else r) <:+ r := by
    split
    · exact List.tail_suffix r
    · exact List.suffix_rfl
  obtain ⟨r, hends, hbody⟩ : ∃ r, r <:+ line.reverse ∧
      physicalBody line = if r.head? = some '\\' then (r.tail.reverse, true) else (r.reverse, false) :=
    ⟨_, (hdrop '\r' _).trans (hdrop '\n' line.reverse), rfl⟩
  rw [hbody, ← List.reverse_suffix]
  split
  · rw [List.reverse_reverse]
    exact (List.tail_suffix r).trans hends
  · rw [List.reverse_reverse]
    exact hends

/-! ## Where physical lines stand -/

/-- A physical line where it stands in a source: the characters of the lines that it goes on, its own, and whether it is continued itself. -/
structure Stretch where
  before : List Char
  body : List Char
  continued : Bool
  deriving DecidableEq, Repr

namespace Stretch

/-- A physical line after the characters of those that it goes on. -/
def ofLine (before line : List Char) : Stretch where
  before
  body := (physicalBody line).1
  continued := (physicalBody line).2

/-- The characters of a physical line and of those that it goes on. -/
def whole (p : Stretch) : List Char :=
  p.before ++ p.body

/-- What the next physical line goes on. -/
def carried (p : Stretch) : List Char :=
  if p.continued then p.whole else []

/-- What is settled by a physical line: its characters, with a slash that was held back before, and without one that it ends in. -/
def added (p : Stretch) : List Char :=
  (settled p.whole).drop (settled p.before).length

/-- What the next physical line goes on after a number of them. -/
def carriedOver (before : List Char) (lines : List (List Char)) : List Char :=
  lines.foldl (fun before line => (ofLine before line).carried) before

/-- The physical lines of a source, each where it stands. -/
def ofLines (before : List Char) : List (List Char) → List Stretch
  | [] => []
  | line :: rest => ofLine before line :: ofLines (ofLine before line).carried rest

variable {before : List Char} {lines : List (List Char)}

/-- What is settled after a physical line is what was settled before it and what the line adds. -/
theorem settled_whole (p : Stretch) : settled p.whole = settled p.before ++ p.added := by
  obtain ⟨more, hmore⟩ := settled_prefix p.before p.body
  rw [added, whole, ← hmore, List.drop_left]

/-- What is carried over a last physical line is what this line leaves of what was carried to it. -/
theorem carriedOver_concat (lines : List (List Char)) (line : List Char) :
    carriedOver before (lines ++ [line]) = (ofLine (carriedOver before lines) line).carried := by
  rw [carriedOver, List.foldl_append]
  rfl

/-- The last physical line stands after what the lines before it carry over to it. -/
theorem ofLines_concat (lines : List (List Char)) (line : List Char) :
    ofLines before (lines ++ [line]) = ofLines before lines ++ [ofLine (carriedOver before lines) line] := by
  induction lines generalizing before with
  | nil => rfl
  | cons first rest ih =>
    rw [List.cons_append, ofLines, ih]
    rfl

/-- At the end of a physical line that is not continued the next one begins in code. -/
theorem quiet_carried {p : Stretch} {more : List Char} (h : (Situation.after p.whole).Quiet ((if p.continued then [] else ['\n']) ++ more)) :
    (Situation.after p.carried).Quiet more := by
  unfold carried
  split
  · simpa [*] using h
  · rename_i hcontinued
    rw [if_neg hcontinued] at h
    exact h.newline

/-- Whether a physical line ends in no slash in code, or in one that ends its logical line and is not all that is visible of it. -/
def Clear (p : Stretch) : Prop :=
  endsInSlash p.whole = true → p.continued = false ∧ visible p.body ≠ ['/']

instance (p : Stretch) : Decidable p.Clear :=
  inferInstanceAs (Decidable (_ → _))

/-- When no physical line that is continued ends in a slash, none is held back anywhere. -/
theorem not_endsInSlash_before (hbefore : endsInSlash before = false) (hclear : ∀ p ∈ ofLines before lines, p.Clear) :
    (∀ p ∈ ofLines before lines, endsInSlash p.before = false) ∧ held (carriedOver before lines) = [] := by
  induction lines generalizing before with
  | nil => exact ⟨by simp [ofLines], if_neg (by simp [carriedOver, hbefore])⟩
  | cons line rest ih =>
    obtain ⟨hfirst, hrest⟩ := List.forall_mem_cons.mp hclear
    have hcarried : endsInSlash (ofLine before line).carried = false := by
      unfold carried
      split
      · rename_i hcontinued
        by_contra hslash
        rw [Bool.not_eq_false] at hslash
        exact absurd hcontinued (by simp [(hfirst hslash).1])
      · rfl
    obtain ⟨hmore, hheld⟩ := ih hcarried hrest
    exact ⟨List.forall_mem_cons.mpr ⟨hbefore, hmore⟩, hheld⟩

/-- Where nothing was held back before, a physical line settles its characters but a slash that it ends in. -/
theorem added_append_held {p : Stretch} (hbefore : endsInSlash p.before = false) : p.added ++ held p.whole = p.body := by
  have hsettled : settled p.before = p.before := by simp [settled, hbefore]
  have hwhole := settled_append_held p.whole
  rw [settled_whole, hsettled, List.append_assoc] at hwhole
  exact List.append_cancel_left hwhole

namespace Clear

variable {p : Stretch}

/-- When no slash is held back before a line, it settles something visible just when its body is visible. -/
theorem visible_added (h : p.Clear) (hbefore : endsInSlash p.before = false) : visible p.added ≠ [] ↔ visible p.body ≠ [] := by
  have hbody := congrArg visible (added_append_held hbefore)
  rw [visible_append, held] at hbody
  by_cases hslash : endsInSlash p.whole = true
  · have hmore := (h hslash).2
    rw [if_pos hslash, show visible ['/'] = ['/'] by decide] at hbody
    refine iff_of_true (fun hnone => hmore ?_) (by simp [← hbody])
    rw [← hbody, hnone, List.nil_append]
  · rw [if_neg hslash, visible_nil, List.append_nil] at hbody
    rw [hbody]

/-- A slash in code is not all that is visible of a line. -/
theorem visible_whole (h : p.Clear) (hbefore : endsInSlash p.before = false) (hslash : endsInSlash p.whole = true) :
    visible p.whole ≠ ['/'] := by
  intro halone
  have hbody := congrArg visible (added_append_held hbefore)
  rw [visible_append, held, if_pos hslash, show visible ['/'] = ['/'] by decide] at hbody
  rw [whole, visible_append, ← hbody, ← List.append_assoc] at halone
  have hnone := List.append_eq_nil_iff.mp (List.append_left_eq_self.mp halone)
  exact (h hslash).2 (by rw [← hbody, hnone.2, List.nil_append])

end Clear

/-- The bodies of the stretches are those of the physical lines. -/
theorem map_body_ofLines (lines : List (List Char)) : (ofLines before lines).map body = lines.map fun line => (physicalBody line).1 := by
  induction lines generalizing before with
  | nil => rfl
  | cons line rest ih =>
    rw [ofLines, List.map_cons, ih]
    rfl

end Stretch

/-! ## Sources without comments -/

namespace Splice

/-- A source whose line under construction goes on `before`: its cleaner follows, and a physical line is recorded when more than blanks are
settled. -/
structure Follows (s : Splice) (before : List Char) : Prop where
  modes_eq : s.modes = (Situation.after before).modes
  visible_eq : visible s.line.chars = visible (settled before)
  recorded : s.line.physical = [] ↔ visible (settled before) = []

namespace Follows

variable {s : Splice} {line rest : List Char}

/-- The characters of a physical line. -/
theorem readLine {p : Stretch} (h : s.Follows p.before) (hbody : '\n' ∉ p.body) (hquiet : (Situation.after p.before).Quiet (p.body ++ rest)) :
    (s.readLine p.body p.continued).Follows p.whole ∧ (Situation.after p.whole).Quiet rest ∧
    (s.readLine p.body p.continued).earlier = s.earlier ∧
    (s.readLine p.body p.continued).sloc = s.sloc + if visible p.added ≠ [] then 1 else 0 := by
  obtain ⟨added, hadded, hread⟩ := readLine_eq_added h.modes_eq p.body p.continued
  have hstart : (⟨.after p.before, s.line⟩ : Cleaning).Follows p.before := ⟨rfl, h.visible_eq⟩
  obtain ⟨hfollows, hnext⟩ := hstart.foldl hbody hquiet
  have hvisible : visible added.reverse = visible p.added := by
    have hsettled := hfollows.visible_eq
    rw [hadded, LogicalLine.visible_withMore, h.visible_eq, ← Stretch.whole, Stretch.settled_whole, visible_append] at hsettled
    exact List.append_cancel_left hsettled
  have hany : added.any (!Text.isBlank ·) = true ↔ visible p.added ≠ [] := by
    rw [← hvisible, ne_eq, visible_eq_nil_iff]
    simp
  have hmodes := congrArg Situation.modes hfollows.situation_eq
  have hline := hfollows.visible_eq
  rw [hadded] at hline
  rw [hread]
  by_cases hshows : visible p.added ≠ []
  · simp only [hany.mpr hshows, if_true, if_pos hshows]
    refine ⟨⟨hmodes, hline, ?_⟩, hnext, trivial, trivial⟩
    rw [Stretch.settled_whole, visible_append]
    simp [LogicalLine.addPhysical, hshows]
  · simp only [(Bool.not_eq_true _).mp (hany.not.mpr hshows), if_neg hshows]
    refine ⟨⟨hmodes, hline, ?_⟩, hnext, trivial, rfl⟩
    rw [Stretch.settled_whole, visible_append, not_not.mp hshows, List.append_nil]
    exact h.recorded

/-- The end of a logical line: what is held back is added, and the line is kept unless it is blank. -/
theorem endLine {before : List Char} (h : s.Follows before) : s.endLine.Follows [] ∧ s.endLine.sloc = s.sloc ∧
    ∃ l : LogicalLine, visible l.text.toList = visible before ∧ (l.physical = [] ↔ visible (settled before) = []) ∧
      s.endLine.earlier = l.keptAfter s.earlier := by
  obtain ⟨added, latest, hadded, hend⟩ := s.endLine_eq_added
  have hended : (Cleaner.endLine s.modes s.line).1.modes = Cleaner.initial ∧
      visible (Cleaner.endLine s.modes s.line).1.line.chars = visible before := by
    have hbefore := congrArg visible (settled_append_held before)
    rw [visible_append, ← h.visible_eq, held] at hbefore
    rw [h.modes_eq, ← hbefore]
    split
    · rename_i hslash
      rw [Situation.after_of_endsInSlash hslash]
      exact ⟨rfl, s.line.visible_push '/'⟩
    · rename_i hslash
      rw [Situation.after_of_not_endsInSlash hslash, Cleaner.endLine_within, visible_nil, List.append_nil]
      exact ⟨rfl, rfl⟩
  rw [hend]
  refine ⟨⟨hended.1, rfl, ?_⟩, rfl, s.line.withMore added, ?_, h.recorded, rfl⟩
  · exact iff_of_true rfl rfl
  · rw [LogicalLine.visible_text, ← hadded, hended.2]

/-- A physical line where it stands. A line that it ends holds what is held back too, and records no physical line only when that is all. -/
theorem feed {p : Stretch} (h : s.Follows p.before) (hline : physicalBody line = (p.body, p.continued)) (hbody : '\n' ∉ p.body)
    (hquiet : (Situation.after p.before).Quiet (p.body ++ rest)) :
    (s.feed line).Follows p.carried ∧ (Situation.after p.whole).Quiet rest ∧
    (s.feed line).sloc = s.sloc + (if visible p.added ≠ [] then 1 else 0) ∧
    ∃ kept : List LogicalLine, (s.feed line).earlier = kept ++ s.earlier ∧
      visible (kept.reverse.flatMap (·.text.toList)) ++ visible p.carried = visible p.whole ∧
      ∀ l ∈ kept, l.physical = [] → endsInSlash p.whole = true ∧ visible p.whole = ['/'] ∧ visible l.text.toList = ['/'] := by
  obtain ⟨hfollows, hnext, hearlier, hsloc⟩ := h.readLine hbody hquiet
  have hopen : (s.readLine p.body p.continued).inBlockComment = false := by
    rw [inBlockComment, hfollows.modes_eq, Situation.inBlockComment_after]
  rw [feed_eq hline, hopen, Bool.or_false, Stretch.carried]
  by_cases hcontinued : p.continued = true
  · rw [if_pos hcontinued, if_pos hcontinued]
    exact ⟨hfollows, hnext, hsloc, [], hearlier, rfl, by simp⟩
  · rw [if_neg hcontinued, if_neg hcontinued]
    obtain ⟨hended, hsame, l, hl, hphysical, hkept⟩ := hfollows.endLine
    refine ⟨hended, hnext, hsame.trans hsloc, ?_⟩
    rw [hkept, hearlier, LogicalLine.keptAfter_eq_visible, hl]
    by_cases hblank : visible p.whole = []
    · rw [if_pos hblank]
      exact ⟨[], rfl, hblank.symm, by simp⟩
    · rw [if_neg hblank]
      refine ⟨[l], rfl, by simp [hl], ?_⟩
      rw [List.forall_mem_singleton, hphysical, hl]
      intro hsettled
      have hwhole := congrArg visible (settled_append_held p.whole)
      rw [visible_append, hsettled, List.nil_append, held] at hwhole
      by_cases hslash : endsInSlash p.whole = true
      · rw [if_pos hslash] at hwhole
        exact ⟨hslash, hwhole.symm, hwhole.symm⟩
      · rw [if_neg hslash] at hwhole
        exact absurd hwhole.symm hblank

/-- The end of the source: what is held back is lost. A line that is kept here records a physical line. -/
theorem close {before : List Char} (h : s.Follows before) : s.close.sloc = s.sloc ∧
    visible (s.close.finished.flatMap (·.text.toList)) ++ visible (held before) =
      visible (s.finished.flatMap (·.text.toList)) ++ visible before ∧
    ∀ l ∈ s.close.earlier, l.physical = [] → l ∈ s.earlier := by
  obtain ⟨latest, hclose⟩ := s.close_eq_kept
  have hbefore := congrArg visible (settled_append_held before)
  rw [visible_append, ← h.visible_eq] at hbefore
  rw [hclose, finished, finished, LogicalLine.keptAfter_eq_visible, LogicalLine.visible_text, ← hbefore]
  refine ⟨rfl, ?_, ?_⟩
  · by_cases hblank : visible s.line.chars = []
    · simp [hblank]
    · simp [hblank, LogicalLine.visible_text]
  · intro l hl hphysical
    by_cases hblank : visible s.line.chars = []
    · simpa [hblank] using hl
    · rw [if_neg hblank] at hl
      rcases List.mem_cons.mp hl with rfl | hl
      · exact absurd (h.visible_eq.trans (h.recorded.mp hphysical)) hblank
      · exact hl

end Follows

/-- What has been read of a source without comments: all of it but blanks is on the logical lines, or goes on in the next physical line; the
physical lines that settle more than blanks are counted; and a line that records none of them holds a slash alone. -/
structure Retains (s : Splice) (lines : List (List Char)) : Prop extends s.Follows (Stretch.carriedOver [] lines) where
  shown : visible (s.finished.flatMap (·.text.toList)) ++ visible (Stretch.carriedOver [] lines) =
    visible (lines.flatMap fun line => (physicalBody line).1)
  sloc_eq : s.sloc = (Stretch.ofLines [] lines).countP (visible ·.added ≠ [])
  unrecorded : ∀ l ∈ s.earlier, l.physical = [] → ∃ p ∈ Stretch.ofLines [] lines,
    endsInSlash p.whole = true ∧ visible p.whole = ['/'] ∧ visible l.text.toList = ['/']

namespace Retains

variable {s : Splice} {lines : List (List Char)} {line rest : List Char}

/-- Before the first line nothing has been read, and nothing retained. -/
theorem empty : ({} : Splice).Retains [] where
  modes_eq := rfl
  visible_eq := rfl
  recorded := iff_of_true rfl rfl
  shown := rfl
  sloc_eq := rfl
  unrecorded := by simp

/-- One more physical line. -/
theorem feed (h : s.Retains lines) (hbody : '\n' ∉ (physicalBody line).1)
    (hquiet : (Situation.after (Stretch.carriedOver [] lines)).Quiet ((physicalBody line).1 ++ rest)) :
    (s.feed line).Retains (lines ++ [line]) ∧
    (Situation.after (Stretch.ofLine (Stretch.carriedOver [] lines) line).whole).Quiet rest := by
  have hfeed := h.toFollows.feed (p := .ofLine (Stretch.carriedOver [] lines) line) Prod.mk.eta.symm hbody hquiet
  have hstretches : Stretch.ofLines [] (lines ++ [line]) = Stretch.ofLines [] lines ++ [.ofLine (Stretch.carriedOver [] lines) line] :=
    Stretch.ofLines_concat lines line
  have hbodies : visible ((lines ++ [line]).flatMap fun line => (physicalBody line).1) =
      visible (s.finished.flatMap (·.text.toList)) ++ visible (Stretch.ofLine (Stretch.carriedOver [] lines) line).whole := by
    rw [List.flatMap_append, visible_append, ← h.shown, List.append_assoc, ← visible_append]
    simp [Stretch.whole, Stretch.ofLine]
  rw [← Stretch.carriedOver_concat] at hfeed
  generalize Stretch.ofLine (Stretch.carriedOver [] lines) line = p at hfeed hstretches hbodies
  obtain ⟨hfollows, hnext, hsloc, kept, hearlier, hshown, hunrecorded⟩ := hfeed
  refine ⟨⟨hfollows, ?_, ?_, ?_⟩, hnext⟩
  · rw [hbodies, ← hshown, finished, hearlier, List.reverse_append, List.flatMap_append, visible_append, List.append_assoc]
    rfl
  · rw [hsloc, h.sloc_eq, hstretches, List.countP_append, List.countP_singleton]
    simp
  · intro l hl hphysical
    rw [hstretches]
    rcases List.mem_append.mp (hearlier ▸ hl) with hl | hl
    · exact ⟨p, List.mem_append_right _ (List.mem_singleton_self p), hunrecorded l hl hphysical⟩
    · obtain ⟨q, hq, hslash⟩ := h.unrecorded l hl hphysical
      exact ⟨q, List.mem_append_left _ hq, hslash⟩

/-- All physical lines of a text. -/
theorem foldl_feed {text : List Char} (h : s.Retains lines)
    (hquiet : (Situation.after (Stretch.carriedOver [] lines)).Quiet (spliced (unifyEnds text))) :
    ((physicalLines text).foldl Splice.feed s).Retains (lines ++ physicalLines text) := by
  induction text using physicalLines_induction generalizing s lines with
  | nil => simpa [physicalLines] using h
  | last line hne hline =>
    rw [spliced_of_notMem (by rwa [unifyEnds_of_notMem hline]), unifyEnds_of_notMem hline] at hquiet
    rw [physicalLines_last hne hline]
    obtain ⟨rest, hrest⟩ := physicalBody_prefix line
    rw [← hrest] at hquiet
    have hbody : '\n' ∉ (physicalBody line).1 := fun hmem => hline (hrest ▸ List.mem_append_left _ hmem)
    exact (h.feed hbody hquiet).1
  | line line more hline ih =>
    rw [spliced_unifyEnds hline] at hquiet
    obtain ⟨hfeed, hnext⟩ := h.feed (newline_notMem_physicalBody hline) hquiet
    have hmore := ih hfeed (by rw [Stretch.carriedOver_concat]; exact Stretch.quiet_carried hnext)
    rwa [physicalLines_append hline, List.foldl_cons, List.append_cons]

end Retains

/-- What is kept of a source in which no comment begins. All characters but blanks, line ends and continuation backslashes are on the logical
lines, one after another, but for a slash in code before a continuation at the end of the source. Counted are the physical lines that settle
more than blanks, and a logical line that records no physical line is a slash alone. When every physical line is clear, nothing is lost, the
physical lines with more than blanks are counted, and every logical line records one. -/
theorem retention_ofLines {text : String} (h : opensComment .code (spliced (unifyEnds text.toList)) = false) :
    let lines := physicalLines text.toList
    (visible ((ofLines lines).finished.flatMap (·.text.toList)) ++ held (Stretch.carriedOver [] lines) =
        visible (lines.flatMap fun line => (physicalBody line).1) ∧
      (ofLines lines).sloc = (Stretch.ofLines [] lines).countP (visible ·.added ≠ []) ∧
      ∀ l ∈ (ofLines lines).finished, l.physical = [] → ∃ p ∈ Stretch.ofLines [] lines,
        endsInSlash p.whole = true ∧ visible p.whole = ['/'] ∧ visible l.text.toList = ['/']) ∧
    ((∀ p ∈ Stretch.ofLines [] lines, p.Clear) →
      visible ((ofLines lines).finished.flatMap (·.text.toList)) = visible (lines.flatMap fun line => (physicalBody line).1) ∧
      (ofLines lines).sloc = lines.countP (fun line => visible (physicalBody line).1 ≠ []) ∧
      ∀ l ∈ (ofLines lines).finished, l.physical ≠ []) := by
  intro lines
  have hread : (lines.foldl feed {}).Retains lines := Retains.empty.foldl_feed h
  clear_value lines
  obtain ⟨hsloc, hshown, hearlier⟩ := hread.toFollows.close
  have hvisible : visible (held (Stretch.carriedOver [] lines)) = held (Stretch.carriedOver [] lines) := by
    unfold held
    split <;> rfl
  rw [show (lines.foldl feed {}).close = ofLines lines from rfl] at hsloc hshown hearlier
  rw [hread.shown, hvisible] at hshown
  rw [hread.sloc_eq] at hsloc
  have hunrecorded : ∀ l ∈ (ofLines lines).finished, l.physical = [] → ∃ p ∈ Stretch.ofLines [] lines,
      endsInSlash p.whole = true ∧ visible p.whole = ['/'] ∧ visible l.text.toList = ['/'] := fun l hl hphysical =>
    hread.unrecorded l (hearlier l (List.mem_reverse.mp hl) hphysical) hphysical
  refine ⟨⟨hshown, hsloc, hunrecorded⟩, fun hclear => ?_⟩
  obtain ⟨hbefore, hheld⟩ := Stretch.not_endsInSlash_before (by rfl) hclear
  refine ⟨?_, ?_, ?_⟩
  · rw [hheld, List.append_nil] at hshown
    exact hshown
  · calc (ofLines lines).sloc
      _ = (Stretch.ofLines [] lines).countP (visible ·.added ≠ []) := hsloc
      _ = (Stretch.ofLines [] lines).countP (visible ·.body ≠ []) :=
        List.countP_congr fun p hp => by simpa using (hclear p hp).visible_added (hbefore p hp)
      _ = ((Stretch.ofLines [] lines).map (·.body)).countP (visible · ≠ []) := by rw [List.countP_map]; rfl
      _ = lines.countP (fun line => visible (physicalBody line).1 ≠ []) := by rw [Stretch.map_body_ofLines, List.countP_map]; rfl
  · intro l hl hphysical
    obtain ⟨p, hp, hslash, halone, -⟩ := hunrecorded l hl hphysical
    exact (hclear p hp).visible_whole (hbefore p hp) hslash halone

/-- A source with slashes in code and in a literal, at the end of a line too. -/
def divided : String :=
  "a / b \\\n \"//\" c/\n\n/ d /\n"

/-- The source has slashes in code and in a literal, at the end of a line too, and none of them is lost. -/
theorem retention_ofLines_divided :
    opensComment .code (spliced (unifyEnds divided.toList)) = false ∧
    (∀ p ∈ Stretch.ofLines [] (physicalLines divided.toList), p.Clear) ∧
    visible ((ofLines (physicalLines divided.toList)).finished.flatMap (·.text.toList)) =
      visible ((physicalLines divided.toList).flatMap fun line => (physicalBody line).1) ∧
    (ofLines (physicalLines divided.toList)).sloc =
      (physicalLines divided.toList).countP (fun line => visible (physicalBody line).1 ≠ []) ∧
    ∀ l ∈ (ofLines (physicalLines divided.toList)).finished, l.physical ≠ [] := by
  have hcomments : opensComment .code (spliced (unifyEnds divided.toList)) = false := by decide
  have hclear : ∀ p ∈ Stretch.ofLines [] (physicalLines divided.toList), p.Clear := by decide
  exact ⟨hcomments, hclear, (retention_ofLines hcomments).2 hclear⟩

/-- A slash alone on a line is not counted, and its logical line records no physical line. -/
theorem slash_uncounted :
    opensComment .code (spliced (unifyEnds "/\n".toList)) = false ∧
    (physicalLines "/\n".toList).countP (fun line => visible (physicalBody line).1 ≠ []) = 1 ∧
    (ofLines (physicalLines "/\n".toList)).sloc = 0 ∧
    (ofLines (physicalLines "/\n".toList)).finished.map (fun l => (l.text, l.physical)) = [("/", [])] := by
  refine ⟨by decide, by decide, by cbv, by cbv⟩

end Splice

end Prepass
