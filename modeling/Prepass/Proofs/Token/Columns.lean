import Mathlib
import Prepass.Proofs.Line.Columns
import Prepass.Proofs.Token.Lossless

/-!
# Columns of tokens

A token has its text at its column of the physical line that its logical line begins on, as long as it ends there and no comment begins before
(`Token.faithful_ofLines`). The cleaner turns blanks in code into spaces, so this needs that the lexer finds no blank of code inside a token. It
goes by the same literals as the cleaner: it begins a lexeme in code, or after a quote that is never closed, and after such a quote no character
stands in code any more (`Lexer.InStep`). The column of a directive is the one of its number sign in the text that continuations make.
-/

namespace Prepass

open Phases

/-! ## Literals as the cleaner sees them -/

/-- A quote in code opens its literal. -/
theorem Spot.next_quote (q : Quote) : Spot.code.next q.char = .literal q := by
  cases q <;> decide

/-- Where there are no quotes, code goes on. -/
theorem Phases.foldl_next_of_notMem {v : List Char} (h : ∀ q : Quote, q.char ∉ v) : v.foldl Spot.next .code = .code := by
  induction v with
  | nil => rfl
  | cons c rest ih =>
    have hc : ∀ q : Quote, c ≠ q.char := fun q hc => h q (hc ▸ List.mem_cons_self)
    have hnext : Spot.code.next c = .code := by
      have hdouble : c ≠ '"' := hc .double
      have hsingle : c ≠ Text.apostrophe := hc .single
      simp [Spot.next, Quote.ofChar?, hdouble, hsingle]
    rw [List.foldl_cons, hnext]
    exact ih fun q hq => h q (List.mem_cons_of_mem c hq)

namespace Lexer

section

variable {q : Quote} {cs : List Char} {k m : Nat}

theorem escape_ne (q : Quote) : '\\' ≠ q.char := by
  cases q <;> decide

/-- At the end of a literal the text is in code again. -/
theorem foldl_next_literalTail (h : literalTail? q.char cs = some m) : (cs.take m).foldl Spot.next (.literal q) = .code := by
  fun_induction literalTail? q.char cs generalizing m with
  | case1 => cases h
  | case2 rest =>
    cases h
    have hescape := (escape_ne q).symm
    simp [Spot.next, hescape]
  | case3 => cases h
  | case4 hquote d more ih =>
    obtain ⟨m, hm, rfl⟩ := Option.map_eq_some_iff.mp h
    exact ih hm
  | case5 c rest hquote hescape ih =>
    obtain ⟨m, hm, rfl⟩ := Option.map_eq_some_iff.mp h
    have hnext : (Spot.literal q).next c = .literal q := by simp [Spot.next, hquote, hescape]
    rw [List.take_succ_cons, List.foldl_cons, hnext]
    exact ih hm

/-- Up to its end no character of a literal stands in code. -/
theorem foldl_next_open (h : ∀ m, literalTail? q.char cs = some m → k < m) : (cs.take k).foldl Spot.next (.literal q) ≠ .code := by
  fun_induction literalTail? q.char cs generalizing k with
  | case1 => simp
  | case2 rest =>
    rw [Nat.lt_one_iff.mp (h 1 rfl)]
    simp
  | case3 =>
    cases k with
    | zero => simp
    | succ k => simp [Spot.next]
  | case4 hquote d more ih =>
    rcases k with _ | _ | k
    · simp
    · simp [Spot.next]
    · exact ih fun m hm => Nat.lt_of_add_lt_add_right (h (m + 2) (by rw [hm]; rfl))
  | case5 c rest hquote hescape ih =>
    cases k with
    | zero => simp
    | succ k =>
      have hnext : (Spot.literal q).next c = .literal q := by simp [Spot.next, hquote, hescape]
      rw [List.take_succ_cons, List.foldl_cons, hnext]
      exact ih fun m hm => Nat.lt_of_succ_lt_succ (h (m + 1) (by rw [hm]; rfl))

end

/-! ## The lexer in step -/

/-- The lexer is in step with the cleaner where a text is in code, or will not be any more. -/
def InStep (spot : Spot) (cs : List Char) : Prop :=
  spot = .code ∨ ∀ k, (cs.take k).foldl Spot.next spot ≠ .code

/-- There is no blank of code in a lexeme. -/
def NoCodeBlank (spot : Spot) (v : List Char) : Prop :=
  ∀ k c, v[k]? = some c → Text.isBlank c = true → (v.take k).foldl Spot.next spot ≠ .code

/-- The marks of the literals of a quote. -/
def marksOf : Quote → List (List Char)
  | .double => stringMarks
  | .single => characterMarks

theorem quote_notMem_marksOf (q : Quote) : ∀ mark ∈ marksOf q, q.char ∉ mark := by
  cases q with
  | double => exact quote_notMem_stringMarks
  | single => exact apostrophe_notMem_characterMarks

theorem isBlank_of_mem_marksOf (q : Quote) : ∀ mark ∈ [] :: marksOf q, ∀ c ∈ mark ++ [q.char], Text.isBlank c = false := by
  cases q with
  | double => exact isBlank_of_mem_stringMarks
  | single => exact isBlank_of_mem_characterMarks

/-- A mark and the quote after it open a literal. -/
theorem foldl_next_mark (q : Quote) : ∀ mark ∈ [] :: marksOf q, (mark ++ [q.char]).foldl Spot.next .code = .literal q := by
  cases q <;> decide

section

variable {q : Quote} {spot : Spot} {v tail : List Char} {kind : Token.Kind}

theorem NoCodeBlank.of_plain (h : ∀ c ∈ v, Text.isBlank c = false) : NoCodeBlank spot v := by
  intro k c hc hblank
  rw [h c (List.mem_of_getElem? hc)] at hblank
  cases hblank

/-- A literal has blanks after its quote only, and it ends in code. -/
theorem in_step_of_literal (h : literal? q.char (marksOf q) (v ++ tail) = some v.length) :
    NoCodeBlank .code v ∧ InStep (v.foldl Spot.next .code) tail := by
  obtain ⟨mark, rest, m, hmark, heq, hm, hlength⟩ := (literal?_eq_some_iff (quote_notMem_marksOf q)).mp h
  have hopen := foldl_next_mark q mark hmark
  have hblank := isBlank_of_mem_marksOf q mark hmark
  have hv : v = (mark ++ [q.char]) ++ rest.take m := by
    have htake := congrArg (List.take v.length) heq
    have hsum : mark.length + (m + 1) = (mark ++ [q.char]).length + m := by
      rw [List.length_append, List.length_singleton]
      omega
    rw [List.take_left, List.append_cons, hlength, hsum, List.take_length_add_append] at htake
    exact htake
  generalize mark ++ [q.char] = start at hopen hblank hv
  subst hv
  refine ⟨fun k c hc hk => ?_, .inl ?_⟩
  · by_cases hlt : k < start.length
    · rw [List.getElem?_append_left hlt] at hc
      rw [hblank c (List.mem_of_getElem? hc)] at hk
      cases hk
    · obtain ⟨j, rfl⟩ := Nat.exists_eq_add_of_le (Nat.not_lt.mp hlt)
      rw [List.getElem?_append_right (Nat.le_add_right ..), Nat.add_sub_cancel_left] at hc
      have hj : j < m := Nat.lt_of_lt_of_le (List.getElem?_eq_some_iff.mp hc).1 (List.length_take_le ..)
      rw [List.take_length_add_append, List.foldl_append, hopen, List.take_take, Nat.min_eq_left (Nat.le_of_lt hj)]
      refine foldl_next_open fun m' hm' => ?_
      cases hm.symm.trans hm'
      exact hj
  · rw [List.foldl_append, hopen, foldl_next_literalTail hm]

/-- A quote that begins no literal is never closed. -/
theorem in_step_of_quote (h : literal? q.char (marksOf q) (q.char :: tail) = none) : InStep (.literal q) tail := by
  have hquote := literal?_quote (quote_notMem_marksOf q) (List.not_mem_nil (a := q.char)) tail
  rw [List.nil_append, h, if_pos List.mem_cons_self] at hquote
  have hnone : literalTail? q.char tail = none := Option.map_eq_none_iff.mp hquote.symm
  refine .inr fun k => foldl_next_open fun m hm => ?_
  rw [hnone] at hm
  cases hm

/-- An identifier or a punctuator has a quote only when it is one. -/
theorem in_step_of_plain (h : Starts v tail kind) (hkind : kind ∈ [.identifier, .punctuator])
    (hnone : ∀ q : Quote, literal? q.char (marksOf q) (v ++ tail) = none) : InStep (v.foldl Spot.next .code) tail := by
  by_cases hquote : ∃ q : Quote, q.char ∈ v
  · obtain ⟨q, hq⟩ := hquote
    have hchar : q.char = Text.apostrophe ∨ q.char = '"' := by cases q <;> simp [Quote.char]
    obtain ⟨-, rfl⟩ := h.finds.eq_of_quote_mem rfl h.ne_nil hkind hchar hq
    rw [List.foldl_cons, Spot.next_quote, List.foldl_nil]
    exact in_step_of_quote (hnone q)
  · exact .inl (foldl_next_of_notMem fun q hq => hquote ⟨q, hq⟩)

/-- There are no quotes in a number. -/
theorem quote_notMem_number {cs : List Char} {n : Nat} (h : number? cs = some n) (q : Quote) : q.char ∉ cs.take n := by
  have hplain : ∀ c ∈ cs.take n, c ≠ q.char := by
    refine forall_mem_number (fun c hc => ?_) (fun c hc => ?_) (fun c hc => ?_) h
    all_goals
      rintro rfl
      revert hc
      cases q <;> decide
  exact fun hq => hplain _ hq rfl

/-- A lexeme that begins in code has no blank of code, and the lexer is in step after it. -/
theorem Starts.in_step (h : Starts v tail kind) : NoCodeBlank .code v ∧ InStep (v.foldl Spot.next .code) tail := by
  have hfinds := h.finds
  have hplain := h.isBlank_of_mem
  have htake : (v ++ tail).take v.length = v := List.take_left
  generalize hn : v.length = n at hfinds
  cases hfinds with
  | number hnumber =>
    have hquote := quote_notMem_number hnumber
    rw [← hn, htake] at hquote
    exact ⟨.of_plain (hplain (by simp)), .inl (foldl_next_of_notMem hquote)⟩
  | character _ hliteral => exact in_step_of_literal (q := .single) (hn ▸ hliteral)
  | string _ _ hliteral => exact in_step_of_literal (q := .double) (hn ▸ hliteral)
  | identifier hnumber hcharacter hstring hidentifier =>
    exact ⟨.of_plain (hplain (by simp)), in_step_of_plain h (by simp) fun q => by cases q <;> assumption⟩
  | punctuator hnumber hcharacter hstring hidentifier =>
    exact ⟨.of_plain (hplain (by simp)), in_step_of_plain h (by simp) fun q => by cases q <;> assumption⟩

/-- No token has a blank of code when the lexer is in step where it begins. -/
theorem scan_in_step (line : Int) (uri : String) (column : Int) (spaced : Bool) {before cs : List Char} (h : InStep (spotAfter before) cs) :
    ∀ t ∈ scan line uri (column + before.length) spaced cs, ∀ k c, t.Covers column k → (before ++ cs)[k]? = some c → Text.isBlank c = true →
      spotAfter ((before ++ cs).take k) ≠ .code := by
  induction cs using reading_induction generalizing before spaced with
  | nil =>
    rw [scan_nil]
    exact List.forall_mem_nil _
  | blank c rest hc ih =>
    have hnext : InStep (spotAfter (before ++ [c])) rest := by
      rw [spotAfter_concat]
      rcases h with hcode | hnever
      · exact .inl (by rw [hcode, Spot.next_blank hc])
      · exact .inr fun k => hnever (k + 1)
    have hrest := ih true hnext
    rw [List.append_assoc, List.singleton_append, List.length_append, List.length_singleton, Int.natCast_add, ← Int.add_assoc] at hrest
    rw [scan_blank hc]
    exact hrest
  | lexeme v tail kind hstarts ih =>
    have hfold : spotAfter (before ++ v) = v.foldl Spot.next (spotAfter before) := List.foldl_append
    have hstep : NoCodeBlank (spotAfter before) v ∧ InStep (spotAfter (before ++ v)) tail := by
      rw [hfold]
      rcases h with hcode | hnever
      · rw [hcode]
        exact hstarts.in_step
      · refine ⟨fun k c hc _ => ?_, .inr fun k => ?_⟩
        · have hlt : k < v.length := (List.getElem?_eq_some_iff.mp hc).1
          have hk := hnever k
          rwa [List.take_append_of_le_length (Nat.le_of_lt hlt)] at hk
        · have hk := hnever (v.length + k)
          rwa [List.take_length_add_append, List.foldl_append] at hk
    have hrest := ih false hstep.2
    rw [List.append_assoc, List.length_append, Int.natCast_add, ← Int.add_assoc] at hrest
    rw [hstarts.scan_eq]
    refine List.forall_mem_cons.mpr ⟨fun k c hcovers hc hblank => ?_, hrest⟩
    obtain ⟨hle, hlt⟩ := hcovers
    dsimp only at hle hlt
    rw [String.length_ofList] at hlt
    obtain ⟨j, rfl⟩ : ∃ j, k = before.length + j := ⟨k - before.length, by omega⟩
    have hj : j < v.length := by omega
    rw [List.getElem?_append_right (Nat.le_add_right ..), Nat.add_sub_cancel_left, List.getElem?_append_left hj] at hc
    rw [List.take_length_add_append, List.take_append_of_le_length (Nat.le_of_lt hj), spotAfter, List.foldl_append]
    exact hstep.1 j c hc hblank

end

end Lexer

/-! ## Tokens of a source -/

/-- The tokens of a line lie in its text, and none of them has a blank of code. -/
theorem LogicalLine.exists_column {l : LogicalLine} {uri : String} {t : Token} (ht : t ∈ Token.ofText l.text l.startLine uri) :
    ∃ column : Nat, t.column = column ∧ (l.body.drop column).take t.value.length = t.value.toList ∧
      ∀ k c, column ≤ k → k < column + t.value.length → l.body[k]? = some c → Text.isBlank c = true → spotAfter (l.body.take k) ≠ .code := by
  have hscan : Token.ofText l.text l.startLine uri = Lexer.scan l.startLine uri (0 + ([] : List Char).length) false l.body := by
    rw [Token.ofText, LogicalLine.text, String.toList_ofList]
    rfl
  have hnone : false = true ↔ ∃ c ∈ ([] : List Char).getLast?, Text.isBlank c = true := by simp
  rw [hscan] at ht
  obtain ⟨column, -, hcolumn, hvalue⟩ := (Lexer.lossless_scan l.startLine uri 0 l.body hnone).inText t ht
  have hblank := Lexer.scan_in_step l.startLine uri 0 false (.inl rfl) t ht
  rw [Int.zero_add] at hcolumn
  refine ⟨column, hcolumn, hvalue, fun k c hle hlt => hblank k c ⟨?_, ?_⟩⟩
  · omega
  · omega

/-- Where no comment begins before its end, a token has the characters of the text at its column. -/
theorem LogicalLine.Drawn.value_eq {l : LogicalLine} {n : Int} {text : List Char} (h : l.Drawn n text) {uri : String} {t : Token}
    (ht : t ∈ Token.ofText l.text l.startLine uri) : ∃ column : Nat, t.column = column ∧
      (column + t.value.length ≤ text.length → (∀ k < column + t.value.length, ¬CommentAt text k) →
        (text.drop column).take t.value.length = t.value.toList) := by
  obtain ⟨column, hcolumn, hvalue, hblank⟩ := exists_column ht
  refine ⟨column, hcolumn, fun hlength hquiet => ?_⟩
  by_cases hempty : t.value.length = 0
  · simpa [hempty] using hvalue
  have hbody : column + t.value.length ≤ l.body.length := by
    have hlengths := congrArg List.length hvalue
    rw [List.length_take, List.length_drop, String.length_toList] at hlengths
    omega
  -- up to the end of the token the line is the text, with the blanks in code as spaces
  have hline : l.body.take (column + t.value.length) = spaced .code (text.take (column + t.value.length)) := by
    have hbegins := h.take_begins hlength hquiet
    have hshort : (l.chars.take (column + t.value.length)).length = column + t.value.length :=
      List.length_take_of_le (hbody.trans l.body_begins.length_le)
    rw [List.prefix_iff_eq_take.mp l.body_begins, List.take_take, Nat.min_eq_left hbody, ← take_spaced,
      List.prefix_iff_eq_take.mp hbegins, hshort]
  have hdrop : (spaced .code (text.take (column + t.value.length))).drop column = (text.take (column + t.value.length)).drop column := by
    refine drop_spaced fun k hk c hc hc' => ?_
    have hlt : k < column + t.value.length := by
      have hbound := (List.getElem?_eq_some_iff.mp hc).1
      rw [length_spaced, List.length_take] at hbound
      omega
    rw [← hline] at hc ⊢
    rw [List.getElem?_take_of_lt hlt] at hc
    rw [List.take_take, Nat.min_eq_left (Nat.le_of_lt hlt)]
    exact hblank k c hk hlt hc hc'
  rw [← hline, List.drop_take, List.drop_take, Nat.add_sub_cancel_left] at hdrop
  rw [← hdrop, hvalue]

/-- How a token stands in its source when its logical line begins on the physical line `first`, before `rest`. Any token but a directive has
its text at its column of `first`, when it ends there and no comment begins before its end. The number sign of a directive that no comment comes
before stands on a physical line that only blank ones, which are continued, come before in the logical line. The column of the directive is
the number of all characters before the sign; so it is the number of the blanks before the sign on its physical line when that is `first`. -/
structure Token.Faithful (t : Token) (first : List Char) (rest : List (List Char)) : Prop where
  value_eq : t.kind ≠ .directive → ∃ column : Nat, t.column = column ∧
    (column + t.value.length ≤ (contentOf first).length → (∀ k < column + t.value.length, ¬CommentAt (continuedText (first :: rest)) k) →
      ((contentOf first).drop column).take t.value.length = t.value.toList)
  number_sign : t.kind = .directive → ¬CommentAt (continuedText (first :: rest)) (indent (continuedText (first :: rest))) →
    ∃ earlier line more, first :: rest = earlier ++ line :: more ∧ Continued earlier ∧
      (∀ c ∈ earlier.flatMap contentOf, Text.isBlank c = true) ∧ (contentOf line)[indent (contentOf line)]? = some '#' ∧
      t.column = ((earlier.flatMap contentOf).length + indent (contentOf line) : Nat)

/-- The tokens of a logical line stand where they should. -/
theorem LogicalLine.Drawn.faithful {l : LogicalLine} {n : Int} {first : List Char} {rest : List (List Char)}
    (h : l.Drawn n (continuedText (first :: rest))) {uri : String} {t : Token} (ht : t ∈ Token.ofLogicalLine uri l) :
    t.line = n ∧ t.Faithful first rest := by
  unfold Token.ofLogicalLine at ht
  split at ht
  · rename_i hdirective
    rw [List.mem_singleton] at ht
    subst ht
    refine ⟨h.startLine_eq, fun hkind => absurd rfl hkind, fun _ hnone => ?_⟩
    obtain ⟨hsign, hindent⟩ := h.number_sign hdirective hnone
    obtain ⟨earlier, line, more, hlines, hcontinued, hblank, hhash, hplace⟩ := exists_line_of_indent hsign
    exact ⟨earlier, line, more, hlines, hcontinued, hblank, hhash, congrArg Nat.cast (hindent.trans hplace)⟩
  · have hkind : t.kind ≠ .directive := by
      obtain ⟨c, cs, hkind, -⟩ := Lexer.exists_lexeme ht
      rw [hkind]
      exact (Lexer.lexeme_kind_ne _).2
    refine ⟨(Lexer.line_scan t ht).trans h.startLine_eq, fun _ => ?_, fun hdirective => absurd hdirective hkind⟩
    obtain ⟨column, hcolumn, hvalue⟩ := h.value_eq ht
    refine ⟨column, hcolumn, fun hlength hquiet => ?_⟩
    -- on the first physical line the text is what stands there
    rw [continuedText] at hvalue hquiet
    have htext := hvalue (hlength.trans (List.prefix_append _ _).length_le) hquiet
    rwa [List.drop_append_of_le_length (by omega), List.take_append_of_le_length (by rw [List.length_drop]; omega)] at htext

/-- The tokens of a source before its end mark stand where they should: the line of a token is the physical line that its logical line begins on, and
its column is a place there. -/
theorem Token.faithful_ofLines (lines : List (List Char)) (uri : String) : ∃ tokens,
    (ofLines lines uri).state = tokens ++ [{ value := "", kind := .eof, line := max (lines.length : Int) 1, column := 0, uri }] ∧
      ∀ t ∈ tokens, ∃ before first rest, lines = before ++ first :: rest ∧ t.line = (before.length : Int) + 1 ∧ t.Faithful first rest := by
  refine ⟨(Splice.ofLines lines).finished.flatMap (ofLogicalLine uri), ?_, fun t ht => ?_⟩
  · rw [ofLines, Splice.total_ofLines]
  · obtain ⟨l, hl, ht⟩ := List.mem_flatMap.mp ht
    obtain ⟨before, first, rest, hlines, hdrawn⟩ := Splice.drawn_ofLines lines l hl
    exact ⟨before, first, rest, hlines, hdrawn.faithful ht⟩

/-- A literal with a tab in it before a comment, and a directive after blanks. -/
def indented : List (List Char) :=
  ["\tx = \"a\tb\"; // c\n".toList, "  #define A\n".toList]

theorem Token.faithful_ofLines_indented :
    (∃ t ∈ (ofLines indented).state, t.value = "\"a\tb\"" ∧ t.column = 5 ∧
      t.Faithful "\tx = \"a\tb\"; // c\n".toList ["  #define A\n".toList]) ∧
    ∃ t ∈ (ofLines indented).state, t.kind = .directive ∧ t.column = 2 ∧ t.Faithful "  #define A\n".toList [] := by
  obtain ⟨tokens, hstate, hfaithful⟩ := Token.faithful_ofLines indented ""
  have htokens : (ofLines indented).state =
      [{ value := "x", kind := .identifier, line := 1, column := 1, spaced := true },
       { value := "=", kind := .punctuator, line := 1, column := 3, spaced := true },
       { value := "\"a\tb\"", kind := .stringLiteral, line := 1, column := 5, spaced := true },
       { value := ";", kind := .punctuator, line := 1, column := 10 },
       { value := "#define A", kind := .directive, line := 2, column := 2 },
       { value := "", kind := .eof, line := 2, column := 0 }] := by cbv
  have hplaced : ∀ t ∈ (ofLines indented).state, t.kind ≠ .eof →
      ∃ first rest, indented.drop (t.line.toNat - 1) = first :: rest ∧ t.Faithful first rest := by
    intro t ht hkind
    rw [hstate] at ht
    rcases List.mem_append.mp ht with ht | ht
    · obtain ⟨before, first, rest, hlines, hline, ht⟩ := hfaithful t ht
      refine ⟨first, rest, ?_, ht⟩
      have hbefore : t.line.toNat - 1 = before.length := by omega
      rw [hbefore, hlines, List.drop_left]
    · exact absurd (congrArg kind (List.mem_singleton.mp ht)) hkind
  rw [htokens] at hplaced ⊢
  refine ⟨⟨_, .tail _ (.tail _ (.head _)), rfl, rfl, ?_⟩, ⟨_, .tail _ (.tail _ (.tail _ (.tail _ (.head _)))), rfl, rfl, ?_⟩⟩
  · obtain ⟨first, rest, hlines, ht⟩ := hplaced _ (.tail _ (.tail _ (.head _))) (by decide)
    obtain ⟨rfl, rfl⟩ := List.cons.inj hlines
    exact ht
  · obtain ⟨first, rest, hlines, ht⟩ := hplaced _ (.tail _ (.tail _ (.tail _ (.tail _ (.head _))))) (by decide)
    obtain ⟨rfl, rfl⟩ := List.cons.inj hlines
    exact ht

/-- A directive after a blank line that is continued: its column is not the number of blanks before its number sign. -/
theorem Token.column_after_continuation :
    physicalLines "  \\\n #define A\n".toList = ["  \\\n".toList, " #define A\n".toList] ∧
    (∀ k < 12, ¬CommentAt (continuedText ["  \\\n".toList, " #define A\n".toList]) k) ∧
    (contentOf " #define A\n".toList)[indent (contentOf " #define A\n".toList)]? = some '#' ∧ indent (contentOf " #define A\n".toList) = 1 ∧
    ∃ t ∈ (ofSource "  \\\n #define A\n").state, t.kind = .directive ∧ t.value = "#define A" ∧ t.column = 3 := by
  refine ⟨by decide, by decide, by decide, by decide, ?_⟩
  have htokens : (ofSource "  \\\n #define A\n").state =
      [{ value := "#define A", kind := .directive, line := 1, column := 3 }, { value := "", kind := .eof, line := 2, column := 0 }] := by cbv
  rw [htokens]
  exact ⟨_, List.mem_cons_self, rfl, rfl, rfl⟩

end Prepass
