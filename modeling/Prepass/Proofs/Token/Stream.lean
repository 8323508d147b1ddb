import Mathlib.Data.List.Pairwise
import Prepass.Proofs.Token.Content
import Prepass.Token.Lexer

/-!
# Streams of tokens

A stream ends in its only end mark, and its line numbers never go back (`IsStream`). The tokens of a source are one
(`Token.isStream_ofLines`): a logical line begins after the lines before it, and its tokens stand on the line it begins on.
-/

namespace Prepass

/-! ## Kinds of lexed tokens -/

/-- A lexeme is neither a directive nor the end mark. -/
theorem Lexer.lexeme_kind_ne (cs : List Char) : (lexeme cs).1 ≠ .eof ∧ (lexeme cs).1 ≠ .directive := by
  unfold lexeme
  repeat' split
  all_goals simp

namespace Token

/-- A lexed token is neither an end mark nor a directive. -/
theorem Lexed.kind_ne {t : Token} (h : t.Lexed) : t.kind ≠ .eof ∧ t.kind ≠ .directive := by
  obtain ⟨text, hmem⟩ := h
  obtain ⟨u, hu, hcontent⟩ := List.mem_map.mp hmem
  obtain ⟨c, rest, hkind, -⟩ := Lexer.exists_lexeme hu
  rw [← kind_of_content hcontent, hkind]
  exact Lexer.lexeme_kind_ne _

end Token

/-- All tokens of a scan stand on the line that it is for. -/
theorem Lexer.line_scan {line column : Int} {uri : String} {spaced : Bool} {cs : List Char} :
    ∀ t ∈ scan line uri column spaced cs, t.line = line := by
  fun_induction scan line uri column spaced cs with
  | case1 => simp
  | case2 column spaced c rest _ ih => exact ih
  | case3 column spaced c rest _ kind length hlex ih => simpa using ih

/-! ## Logical lines in order -/

namespace LogicalLine

variable (l : LogicalLine)

@[simp]
theorem startLine_pushRaw (c : Char) : (l.pushRaw c).startLine = l.startLine := rfl

@[simp]
theorem startLine_push (c : Char) : (l.push c).startLine = l.startLine := rfl

/-- A space does not move the line. -/
@[simp]
theorem startLine_pushSpace : l.pushSpace.startLine = l.startLine := by
  unfold pushSpace
  split <;> rfl

end LogicalLine

/-- Removing comments leaves a line where it begins. -/
theorem Cleaner.startLine_process (modes : Modes) (line : LogicalLine) (input : Pushback Char) :
    (process modes line input).line.startLine = line.startLine := by
  fun_induction process modes line input <;> simp_all

/-- The end of a line does not move it. -/
theorem Cleaner.startLine_endLine (modes : Modes) (line : LogicalLine) : (endLine modes line).1.line.startLine = line.startLine := by
  unfold endLine
  split <;> simp

namespace Splice

/-- The finished lines are in order and begin on lines that have been read, and so does the line under construction, unless it is empty. -/
structure Ordered (s : Splice) : Prop where
  inOrder : s.earlier.Pairwise fun later l => l.startLine ≤ later.startLine
  before : ∀ l ∈ s.earlier, l.startLine ≤ s.line.startLine
  within : ∀ l ∈ s.earlier, l.startLine ≤ s.total
  started : s.line.startLine ≤ s.total ∨ s.line.latest = [] ∧ s.line.startLine = s.total + 1

/-- Before the first line nothing is out of order. -/
theorem ordered_empty : Ordered {} :=
  ⟨.nil, by simp, by simp, .inr ⟨rfl, rfl⟩⟩

variable {s : Splice}

/-- Keeping a line that has been begun keeps the order. -/
theorem Ordered.keepLine (h : s.Ordered) (hstarted : s.line.startLine ≤ s.total) : s.keepLine.Ordered := by
  unfold Splice.keepLine
  split
  · exact h
  · constructor
    · exact List.pairwise_cons.mpr ⟨h.before, h.inOrder⟩
    · exact List.forall_mem_cons.mpr ⟨Int.le_refl _, h.before⟩
    · exact List.forall_mem_cons.mpr ⟨hstarted, h.within⟩
    · exact .inl hstarted

/-- A line without characters is not kept. -/
theorem keepLine_of_empty (h : s.line.latest = []) : s.keepLine = s := by
  have hblank : s.line.category = .blank := by
    simp [LogicalLine.category, LogicalLine.body, LogicalLine.chars, h, Text.trimEnd, Text.trimStart]
  rw [keepLine, if_pos hblank]

/-- A physical line that is read counts. -/
theorem total_readLine (s : Splice) (body : List Char) (continued : Bool) : (s.readLine body continued).total = s.total + 1 := by
  unfold readLine
  dsimp only
  split <;> rfl

/-- Reading a physical line keeps the lines in order, and the one under construction begins on a line that has been read. -/
theorem Ordered.readLine (h : s.Ordered) (body : List Char) (continued : Bool) :
    (s.readLine body continued).Ordered ∧ (s.readLine body continued).line.startLine ≤ (s.readLine body continued).total := by
  have hline : (s.readLine body continued).line.startLine = s.line.startLine := by
    have hprocess := Cleaner.startLine_process s.modes s.line { items := body }
    unfold Splice.readLine
    dsimp only
    split <;> exact hprocess
  have hearlier : (s.readLine body continued).earlier = s.earlier := by
    unfold Splice.readLine
    dsimp only
    split <;> rfl
  have htotal := total_readLine s body continued
  have hstarted : (s.readLine body continued).line.startLine ≤ (s.readLine body continued).total := by
    rw [hline, htotal]
    rcases h.started with hle | ⟨-, heq⟩ <;> push_cast <;> omega
  refine ⟨⟨?_, ?_, ?_, .inl hstarted⟩, hstarted⟩
  · rw [hearlier]
    exact h.inOrder
  · rw [hearlier, hline]
    exact h.before
  · rw [hearlier, htotal]
    intro l hl
    have := h.within l hl
    push_cast
    omega

/-- Keeping a line counts no physical line. -/
@[simp]
theorem total_keepLine (s : Splice) : s.keepLine.total = s.total := by
  unfold keepLine
  split <;> rfl

/-- Only where lines begin counts for the order. -/
theorem Ordered.withLine (h : s.Ordered) {line : LogicalLine} (hline : line.startLine = s.line.startLine)
    (hstarted : s.line.startLine ≤ s.total) (modes : Modes) (latest : List Notice) :
    Ordered { s with line, modes, latest } :=
  ⟨h.inOrder, hline.symm ▸ h.before, h.within, .inl (hline.symm ▸ hstarted)⟩

/-- A logical line that ends is the last of the finished ones, in order. -/
theorem Ordered.endLine (h : s.Ordered) (hstarted : s.line.startLine ≤ s.total) : s.endLine.Ordered := by
  have hline := Cleaner.startLine_endLine s.modes s.line
  have hkept := (h.withLine hline hstarted (Cleaner.endLine s.modes s.line).1.modes
    (if (Cleaner.endLine s.modes s.line).2 then .openLiteral :: s.latest else s.latest)).keepLine (hline.symm ▸ hstarted)
  refine ⟨hkept.inOrder, ?_, hkept.within, .inr ⟨rfl, ?_⟩⟩
  · intro l hl
    have hle := hkept.within l hl
    rw [total_keepLine] at hle
    show l.startLine ≤ (s.total : Int) + 1
    simp only at hle
    omega
  · show (s.total : Int) + 1 = (Splice.keepLine _).total + 1
    rw [total_keepLine]

/-- One more physical line keeps the order. -/
theorem Ordered.feed (h : s.Ordered) (physical : List Char) : (s.feed physical).Ordered := by
  obtain ⟨hread, hstarted⟩ := h.readLine (physicalBody physical).1 (physicalBody physical).2
  unfold Splice.feed
  dsimp only
  split
  · exact hread
  · exact hread.endLine hstarted

/-- Any physical lines leave the finished lines in order. -/
theorem ordered_foldl_feed (lines : List (List Char)) (h : s.Ordered) : (lines.foldl Splice.feed s).Ordered := by
  induction lines generalizing s with
  | nil => exact h
  | cons line rest ih => exact ih (h.feed line)

/-- The finished lines of a source are in order, and they begin on lines that have been read. -/
theorem ordered_ofLines (lines : List (List Char)) :
    (ofLines lines).finished.Pairwise (fun a b => a.startLine ≤ b.startLine) ∧
      ∀ l ∈ (ofLines lines).finished, l.startLine ≤ (ofLines lines).total := by
  have hread := ordered_foldl_feed lines ordered_empty
  have hkept : (lines.foldl Splice.feed {}).keepLine.Ordered := by
    rcases hread.started with hstarted | ⟨hempty, -⟩
    · exact hread.keepLine hstarted
    · rw [keepLine_of_empty hempty]
      exact hread
  refine ⟨List.pairwise_reverse.mpr hkept.inOrder, ?_⟩
  intro l hl
  exact hkept.within l (List.mem_reverse.mp hl)

end Splice

/-! ## Streams -/

/-- Tokens up to a last one, the end mark, which no token before it is. -/
def EndsIn (last : Token) (tokens : List Token) : Prop :=
  ∃ body, tokens = body ++ [last] ∧ last.kind = .eof ∧ ∀ t ∈ body, t.kind ≠ .eof

namespace EndsIn

variable {last t : Token} {rest tokens : List Token}

/-- The end mark comes last. -/
theorem of_eof (h : EndsIn last (t :: rest)) (heof : t.kind = .eof) : rest = [] ∧ t = last := by
  obtain ⟨body, heq, -, hbody⟩ := h
  cases body with
  | nil =>
    rw [List.nil_append, List.cons.injEq] at heq
    exact ⟨heq.2, heq.1⟩
  | cons u more =>
    rw [List.cons_append, List.cons.injEq] at heq
    exact absurd (heq.1 ▸ heof) (hbody u (by simp))

/-- Without a first token that is not the end mark, tokens end as before. -/
theorem tail (h : EndsIn last (t :: rest)) (hne : t.kind ≠ .eof) : EndsIn last rest := by
  obtain ⟨body, heq, hlast, hbody⟩ := h
  cases body with
  | nil =>
    rw [List.nil_append, List.cons.injEq] at heq
    exact absurd (heq.1 ▸ hlast) hne
  | cons u more =>
    rw [List.cons_append, List.cons.injEq] at heq
    exact ⟨more, heq.2, hlast, fun v hv => hbody v (by simp [hv])⟩

/-- So they do without several first tokens, as long as the end mark is not among these. -/
theorem drop {count : Nat} (h : EndsIn last tokens) (htaken : ∀ u ∈ tokens.take count, u.kind ≠ .eof) :
    EndsIn last (tokens.drop count) := by
  induction count generalizing tokens with
  | zero => exact h
  | succ count ih =>
    cases tokens with
    | nil => exact h
    | cons t rest =>
      rw [List.take_succ_cons, List.forall_mem_cons] at htaken
      exact ih (h.tail htaken.1) htaken.2

end EndsIn

/-- Tokens with one end mark, the last token, and with line numbers that never go back. -/
structure IsStream (tokens : List Token) : Prop where
  ends : ∃ last, EndsIn last tokens
  lines : tokens.Pairwise fun a b => a.line ≤ b.line

namespace Token

/-- No token of a logical line is an end mark. -/
theorem kind_ofLogicalLine {uri : String} {l : LogicalLine} : ∀ t ∈ ofLogicalLine uri l, t.kind ≠ .eof := by
  intro t ht
  unfold ofLogicalLine at ht
  split at ht
  · rw [List.mem_singleton.mp ht]
    simp
  · exact (lexed_of_mem ht).kind_ne.1

/-- The tokens of a logical line stand where the line begins. -/
theorem line_ofLogicalLine {uri : String} {l : LogicalLine} : ∀ t ∈ ofLogicalLine uri l, t.line = l.startLine := by
  intro t ht
  unfold ofLogicalLine at ht
  split at ht
  · rw [List.mem_singleton.mp ht]
  · exact Lexer.line_scan t ht

/-- The tokens of a source are a stream. -/
theorem isStream_ofLines (lines : List (List Char)) (uri : String) : IsStream (ofLines lines uri).state := by
  obtain ⟨horder, hwithin⟩ := Splice.ordered_ofLines lines
  have hline : ∀ t ∈ (Splice.ofLines lines).finished.flatMap (ofLogicalLine uri), ∃ l ∈ (Splice.ofLines lines).finished, t.line = l.startLine := by
    intro t ht
    obtain ⟨l, hl, ht⟩ := List.mem_flatMap.mp ht
    exact ⟨l, hl, line_ofLogicalLine t ht⟩
  refine ⟨⟨_, _, rfl, rfl, ?_⟩, ?_⟩
  · intro t ht
    obtain ⟨l, -, ht⟩ := List.mem_flatMap.mp ht
    exact kind_ofLogicalLine t ht
  · refine List.pairwise_append.mpr ⟨?_, List.pairwise_singleton .., ?_⟩
    · refine List.pairwise_flatMap.mpr ⟨?_, ?_⟩
      · intro l _
        refine List.pairwise_of_forall_mem_list fun a ha b hb => ?_
        exact Int.le_of_eq ((line_ofLogicalLine a ha).trans (line_ofLogicalLine b hb).symm)
      · refine horder.imp fun hle a ha b hb => ?_
        rw [line_ofLogicalLine a ha, line_ofLogicalLine b hb]
        exact hle
    · intro a ha b hb
      obtain ⟨l, hl, heq⟩ := hline a ha
      rw [List.mem_singleton.mp hb, heq]
      have := hwithin l hl
      simp only
      omega

end Token

end Prepass
