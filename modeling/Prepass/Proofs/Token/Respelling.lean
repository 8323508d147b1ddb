import Mathlib
import Prepass.Proofs.Directive.Lexed
import Prepass.Proofs.Macro.Placeless
import Prepass.Proofs.Token.Reading

/-!
# Tokens spelled and lexed again

A lexeme is found again before a blank, unless it is a quote that stands alone: such a quote may be closed by a later one once a space stands
between. Tokens that are spelled with spaces between them are therefore lexed as the tokens they were, as long as no quote stands alone among
them (`Token.saySame_ofText_spell`), and so is the body of a macro without paste operators (`Macro.Written.respelled`).

A lexeme neither begins nor ends with a blank, so trimming the spelling of lexed tokens takes nothing off (`Token.strip_spell`).
-/

namespace Prepass

/-! ## Characters -/

namespace Text

/-- Nothing is taken off a text that neither begins nor ends with a blank. -/
theorem trim_eq_self {cs : List Char} (hfirst : ∀ c ∈ cs.head?, isBlank c = false) (hlast : ∀ c ∈ cs.getLast?, isBlank c = false) :
    trim cs = cs := by
  have hdrop {ds : List Char} (hhead : ∀ c ∈ ds.head?, isBlank c = false) : ds.dropWhile isBlank = ds := by
    cases ds with
    | nil => rfl
    | cons d ds => exact List.dropWhile_cons_of_neg (by simp [hhead d rfl])
  rw [trim, trimEnd, trimStart, hdrop hfirst, hdrop (by simpa using hlast), List.reverse_reverse]

end Text

namespace Lexer

/-! ## Lexemes before blanks -/

/-- The marks of literals with a quote after them: none of one kind of literal begins one of the other kind. -/
theorem marks_apart : ∀ mark ∈ [] :: characterMarks, ∀ mark' ∈ [] :: stringMarks,
    ¬mark ++ [Text.apostrophe] <+: mark' ++ ['"'] ∧ ¬mark' ++ ['"'] <+: mark ++ [Text.apostrophe] := by
  decide

/-- No literal begins before a blank unless it begins in what stands before the blank. -/
theorem literal?_before_blank {quote : Char} {marks : List (List Char)} (hmarks : ∀ mark ∈ marks, quote ∉ mark)
    (hplain : ∀ mark ∈ [] :: marks, ∀ c ∈ mark ++ [quote], Text.isBlank c = false) {v tail : List Char}
    (htail : ∀ c ∈ tail.head?, Text.isBlank c = true) (h : ∀ mark ∈ [] :: marks, ¬mark ++ [quote] <+: v) :
    literal? quote marks (v ++ tail) = none := by
  cases hliteral : literal? quote marks (v ++ tail) with
  | none => rfl
  | some n =>
    obtain ⟨mark, rest, m, hmark, hcs, -, -⟩ := (literal?_eq_some_iff hmarks).mp hliteral
    have hinitial : mark ++ [quote] <+: v ++ tail := ⟨rest, by rw [hcs]; simp⟩
    have hfurther : NoFurther [] tail := .of_blank htail
    have hv := hfurther.append v (mark ++ [quote]) (hplain mark hmark) hinitial
    exact absurd (by simpa using hv) (h mark hmark)

/-- An identifier or a punctuator has no quote in it, unless it is a quote that stands alone. -/
theorem Starts.not_quoted {v tail : List Char} {kind : Token.Kind} (h : Starts v tail kind)
    (hlone : kind = .punctuator → v ∉ [[Text.apostrophe], ['"']]) (hkind : kind ∈ [.identifier, .punctuator]) {quote : Char}
    (hquote : quote = Text.apostrophe ∨ quote = '"') {mark : List Char} : ¬mark ++ [quote] <+: v := by
  intro hinitial
  have hmem : quote ∈ v := hinitial.subset (by simp)
  obtain ⟨hpunctuator, hv⟩ := h.finds.eq_of_quote_mem rfl h.ne_nil hkind hquote hmem
  rcases hquote with rfl | rfl <;> exact hlone hpunctuator (by simp [hv])

/-- A lexeme that is neither a number nor a character constant does not begin like a character constant, unless it is a quote that stands
alone. -/
theorem Starts.not_character {v tail : List Char} {kind : Token.Kind} (h : Starts v tail kind)
    (hlone : kind = .punctuator → v ∉ [[Text.apostrophe], ['"']]) (hkind : kind ∈ [.stringLiteral, .identifier, .punctuator])
    {mark : List Char} (hmark : mark ∈ [] :: characterMarks) : ¬mark ++ [Text.apostrophe] <+: v := by
  rcases List.mem_cons.mp hkind with rfl | hkind
  · intro hinitial
    have hstring : literal? '"' stringMarks (v ++ tail) = some v.length := by
      cases h.finds
      assumption
    obtain ⟨mark', rest, m, hmark', hcs, -, -⟩ := (literal?_eq_some_iff quote_notMem_stringMarks).mp hstring
    have hinitial' : mark' ++ ['"'] <+: v ++ tail := ⟨rest, by rw [hcs]; simp⟩
    rcases List.prefix_or_prefix_of_prefix (hinitial.trans (List.prefix_append v tail)) hinitial' with hle | hle
    · exact (marks_apart mark hmark mark' hmark').1 hle
    · exact (marks_apart mark hmark mark' hmark').2 hle
  · exact h.not_quoted hlone hkind (.inl rfl)

/-- A lexeme is found again before a blank or the end of the text, unless it is a quote that stands alone. -/
theorem Starts.before_blank {v tail tail' : List Char} {kind : Token.Kind} (h : Starts v tail kind)
    (hlone : kind = .punctuator → v ∉ [[Text.apostrophe], ['"']]) (htail : ∀ c ∈ tail'.head?, Text.isBlank c = true) :
    Starts v tail' kind := by
  refine ⟨h.ne_nil, h.first, h.finds.append rfl h.ne_nil (.of_blank htail) ?_ ?_⟩
  · intro hkind _
    exact literal?_before_blank apostrophe_notMem_characterMarks isBlank_of_mem_characterMarks htail fun _ hmark =>
      h.not_character hlone hkind hmark
  · intro hkind _
    exact literal?_before_blank quote_notMem_stringMarks isBlank_of_mem_stringMarks htail fun _ _ =>
      h.not_quoted hlone hkind (.inr rfl)

/-- A lexeme at the head of a text is its first token. -/
theorem Starts.content_scan {v tail : List Char} {kind : Token.Kind} (h : Starts v tail kind) :
    (scan 1 "" 0 false (v ++ tail)).map Token.content = (String.ofList v, kind) :: (scan 1 "" 0 false tail).map Token.content := by
  rw [h.scan_eq, List.map_cons]
  exact congrArg _ (scan_place ..)

/-- A token is a lexeme that its text starts with, from some place on. -/
theorem exists_starts_of_mem {line column : Int} {uri : String} {spaced : Bool} {cs : List Char} {t : Token}
    (h : t ∈ scan line uri column spaced cs) : ∃ tail, Starts t.value.toList tail t.kind := by
  induction cs using reading_induction generalizing column spaced with
  | nil =>
    rw [scan_nil] at h
    cases h
  | blank c rest hc ih =>
    rw [scan_blank hc] at h
    exact ih h
  | lexeme v tail kind hstarts ih =>
    rw [hstarts.scan_eq] at h
    rcases List.mem_cons.mp h with rfl | h
    · exact ⟨tail, by simpa using hstarts⟩
    · exact ih h

/-! ## Identifiers -/

/-- The text of an identifier. -/
def IsIdentifier : List Char → Prop
  | [] => False
  | c :: rest => isIdentifierStart c = true ∧ Text.isDigit c = false ∧ ∀ d ∈ rest, isIdentifierPart d = true

/-- Every character of an identifier may be part of one. -/
theorem IsIdentifier.all_part {cs : List Char} (h : IsIdentifier cs) : ∀ d ∈ cs, isIdentifierPart d = true := by
  cases cs with
  | nil => exact h.elim
  | cons c rest => exact List.forall_mem_cons.mpr ⟨isIdentifierPart_of_start h.1, h.2.2⟩

/-- A lexeme that is an identifier is the text of one. -/
theorem Starts.isIdentifier {v tail : List Char} (h : Starts v tail .identifier) : IsIdentifier v := by
  obtain ⟨hne, -, hfinds⟩ := h
  cases v with
  | nil => exact absurd rfl hne
  | cons c v =>
    generalize hn : (c :: v).length = n at hfinds
    cases hfinds with
    | identifier hnumber _ _ h =>
      subst hn
      have hpart := (identifier_in_text h).2.2
      rw [List.take_left] at hpart
      rw [List.cons_append, identifier?] at h
      split at h
      · rename_i hstart
        have hperiod : c ≠ '.' := by
          rintro rfl
          revert hstart
          decide
        rw [List.cons_append, number?_cons hperiod] at hnumber
        exact ⟨hstart, by simpa using hnumber, fun d hd => hpart d (List.mem_cons_of_mem c hd)⟩
      · cases h

end Lexer

namespace Token

/-- A quote that stands alone. -/
def LoneQuote (t : Token) : Prop :=
  t.kind = .punctuator ∧ t.value ∈ ["'", "\""]

instance (t : Token) : Decidable t.LoneQuote :=
  inferInstanceAs (Decidable (_ ∧ _))

/-- The value of a lexed token is a lexeme at the head of some text. -/
theorem Lexed.exists_starts {t : Token} (h : t.Lexed) : ∃ tail, Lexer.Starts t.value.toList tail t.kind := by
  obtain ⟨text, hmem⟩ := h
  obtain ⟨u, hu, hcontent⟩ := List.mem_map.mp hmem
  rw [← value_of_content hcontent, ← kind_of_content hcontent]
  exact Lexer.exists_starts_of_mem hu

/-- Unless it is a quote that stands alone, a lexed token is found again before a blank or the end of the text. -/
theorem Lexed.starts_before_blank {t : Token} (h : t.Lexed) (hlone : ¬t.LoneQuote) {tail : List Char}
    (htail : ∀ c ∈ tail.head?, Text.isBlank c = true) : Lexer.Starts t.value.toList tail t.kind := by
  obtain ⟨_, hstarts⟩ := h.exists_starts
  refine hstarts.before_blank (fun hkind hvalue => hlone ⟨hkind, ?_⟩) htail
  have hmem := List.mem_map_of_mem (f := String.ofList) hvalue
  rwa [String.ofList_toList] at hmem

/-- The value of a name is an identifier. -/
theorem Name.isIdentifier {t : Token} (h : t.Name) : Lexer.IsIdentifier t.value.toList := by
  obtain ⟨tail, hstarts⟩ := h.2.exists_starts
  rw [h.1] at hstarts
  exact hstarts.isIdentifier

/-- A name begins in no way that an identifier does not. -/
theorem Name.value_ne {t : Token} (h : t.Name) (c : Char) (more : List Char) (hstart : Lexer.isIdentifierStart c = false) :
    t.value ≠ String.ofList (c :: more) := by
  intro hvalue
  have hidentifier := h.isIdentifier
  rw [hvalue, String.toList_ofList] at hidentifier
  rw [hidentifier.1] at hstart
  cases hstart

/-- Spelling puts a space between two tokens. -/
theorem toList_spell_cons (t u : Token) (rest : List Token) :
    (spell (t :: u :: rest)).toList = t.value.toList ++ ' ' :: (spell (u :: rest)).toList := by
  simp [spell, Text.join]

/-- Lexed tokens that are spelled with spaces between them are lexed as they were before any text that the last of them is found
before, unless a quote stands alone among them. -/
theorem content_scan_spell {ts : List Token} (h : ∀ t ∈ ts, t.Lexed ∧ ¬t.LoneQuote) (tail : List Char)
    (htail : ∀ t ∈ ts.getLast?, Lexer.Starts t.value.toList tail t.kind) :
    (Lexer.scan 1 "" 0 false ((spell ts).toList ++ tail)).map content = ts.map content ++ (Lexer.scan 1 "" 0 false tail).map content := by
  have hcontent (t : Token) : (String.ofList t.value.toList, t.kind) = t.content := by
    rw [String.ofList_toList, content]
  induction ts with
  | nil => rfl
  | cons t rest ih =>
    obtain ⟨ht, hrest⟩ := List.forall_mem_cons.mp h
    cases rest with
    | nil =>
      have hstarts : Lexer.Starts t.value.toList tail t.kind := htail t rfl
      have hlexed := hstarts.content_scan
      rw [hcontent] at hlexed
      exact hlexed
    | cons u rest =>
      have hstarts : Lexer.Starts t.value.toList (' ' :: ((spell (u :: rest)).toList ++ tail)) t.kind := by
        refine ht.1.starts_before_blank ht.2 ?_
        rintro _ ⟨⟩
        decide
      have hlexed := hstarts.content_scan
      have hblank : (Lexer.scan 1 "" 0 false (' ' :: ((spell (u :: rest)).toList ++ tail))).map content =
          (Lexer.scan 1 "" 0 false ((spell (u :: rest)).toList ++ tail)).map content := by
        rw [Lexer.scan_blank (by decide)]
        exact Lexer.scan_place ..
      rw [hcontent, hblank, ih hrest fun v hv => htail v (by simpa using hv)] at hlexed
      rw [toList_spell_cons, List.append_assoc, List.cons_append, hlexed]
      rfl

/-- Lexed tokens that are spelled with spaces between them are lexed as they were, unless a quote stands alone among them. -/
theorem saySame_ofText_spell {ts : List Token} (h : ∀ t ∈ ts, t.Lexed ∧ ¬t.LoneQuote) : SaySame (ofText (spell ts)) ts := by
  have hend (t : Token) (ht : t ∈ ts.getLast?) : Lexer.Starts t.value.toList [] t.kind := by
    obtain ⟨hlexed, hlone⟩ := h t (List.mem_of_getLast? ht)
    exact hlexed.starts_before_blank hlone (by simp)
  have hscan := content_scan_spell h [] hend
  rwa [List.append_nil, Lexer.scan_nil, List.map_nil, List.append_nil] at hscan

/-- Names spelled with spaces between them are lexed as they were. -/
theorem content_ofText_spell {ts : List Token} (h : ∀ t ∈ ts, t.Name) : SaySame (ofText (spell ts)) ts := by
  refine saySame_ofText_spell fun t ht => ⟨(h t ht).2, fun hlone => ?_⟩
  rw [LoneQuote, (h t ht).1] at hlone
  cases hlone.1

/-- The spelling of tokens begins with the text of the first one. -/
theorem exists_toList_spell (t : Token) (rest : List Token) : ∃ more, (spell (t :: rest)).toList = t.value.toList ++ more := by
  cases rest with
  | nil => exact ⟨[], (List.append_nil _).symm⟩
  | cons u rest => exact ⟨_, toList_spell_cons t u rest⟩

/-- The spelling of tokens begins with what is not blank. -/
theorem Lexed.exists_first_spell {t : Token} (h : t.Lexed) (rest : List Token) :
    ∃ c more, (spell (t :: rest)).toList = c :: more ∧ Text.isBlank c = false := by
  obtain ⟨tail, hstarts⟩ := h.exists_starts
  obtain ⟨c, v, hvalue⟩ := List.exists_cons_of_ne_nil hstarts.ne_nil
  obtain ⟨more, hspell⟩ := exists_toList_spell t rest
  rw [hvalue, List.cons_append] at hspell
  exact ⟨c, v ++ more, hspell, hstarts.first c (by rw [hvalue]; rfl)⟩

/-- The spelling of lexed tokens does not end with a blank. -/
theorem isBlank_getLast?_spell {ts : List Token} (h : ∀ t ∈ ts, t.Lexed) :
    ∀ c ∈ (spell ts).toList.getLast?, Text.isBlank c = false := by
  induction ts with
  | nil => exact nofun
  | cons t rest ih =>
    obtain ⟨ht, hrest⟩ := List.forall_mem_cons.mp h
    cases rest with
    | nil =>
      obtain ⟨tail, hstarts⟩ := ht.exists_starts
      exact hstarts.last
    | cons u rest =>
      intro c hc
      obtain ⟨first, more, hspell, -⟩ := (hrest u List.mem_cons_self).exists_first_spell rest
      refine ih hrest c ?_
      rw [toList_spell_cons, hspell, List.getLast?_append] at hc
      rw [hspell]
      simpa [List.getLast?_cons] using hc

/-- Nothing is taken off the spelling of lexed tokens when it is trimmed. -/
theorem strip_spell {ts : List Token} (h : ∀ t ∈ ts, t.Lexed) : Text.strip (spell ts) = spell ts := by
  have hfirst (c : Char) (hc : c ∈ (spell ts).toList.head?) : Text.isBlank c = false := by
    cases ts with
    | nil => cases hc
    | cons t rest =>
      obtain ⟨first, more, hspell, hblank⟩ := (h t List.mem_cons_self).exists_first_spell rest
      rw [hspell] at hc
      cases hc
      exact hblank
  rw [Text.strip, Text.trim_eq_self hfirst (isBlank_getLast?_spell h), String.ofList_toList]

end Token

/-! ## Bodies of macros -/

/-- Where there is no paste operator, nothing is pasted. -/
theorem Paste.pasteFrom_eq {ts : List Token} (h : ∀ t ∈ ts, isOperator t = false) (latest : List Token) :
    pasteFrom latest false ts = latest.reverse ++ ts := by
  induction ts generalizing latest with
  | nil => rw [pasteFrom, List.append_nil]
  | cons t rest ih =>
    obtain ⟨ht, hrest⟩ := List.forall_mem_cons.mp h
    rw [pasteFrom, ht, if_neg Bool.false_ne_true, if_neg Bool.false_ne_true, ih hrest]
    simp

namespace Macro

/-- A macro that is read: from a directive line, from a definition text, or from its parts with the text of its body. -/
inductive Written : Macro → Prop
  | line {text uri : String} {number : Int} {l : DirectiveLine} {c : Cursor} {name : Token} {params : Option (List Token)}
    {variadic : Option Token} {body : List Token} (h : DirectiveLine.ofText text number uri = .ok l c)
    (hdirective : l.directive = .define name params variadic body) : Written (ofParts name params variadic body)
  | definition {text : String} {m : Macro} (h : ofDefinition text = .ok m) : Written m
  | parts {name text : String} {params : Option (List String)} {variadic : Bool} {m : Macro}
    (h : ofParams? name params (Token.ofText text) variadic = some m) : Written m

/-- The body of a macro is the one that it is given. -/
theorem body_of_ofParams? {name : String} {params : Option (List String)} {body : List Token} {variadic : Bool} {m : Macro}
    (h : ofParams? name params body variadic = some m) : m.body = body := by
  unfold ofParams? at h
  split at h
  · cases h
    rfl
  · cases h
    rfl
  · cases h
  · obtain ⟨last, -, rfl⟩ := Option.map_eq_some_iff.mp h
    rfl

/-- The body of a macro that is read is lexed. -/
theorem Written.lexed {m : Macro} (h : m.Written) : ∀ t ∈ m.body, t.Lexed := by
  cases h with
  | line h hdirective =>
    have hsound := Parse.reads_directiveLine.value_of (fun t => Token.lexed_of_mem) h
    rw [hdirective] at hsound
    exact hsound.2
  | definition h => exact (sound_of_ofDefinition h).2
  | parts h =>
    rw [body_of_ofParams? h]
    exact fun t => Token.lexed_of_mem

/-- A body without paste operators and without quotes that stand alone is left as it is by pasting, and lexed again as it was, at any
place. -/
theorem Written.respelled {m : Macro} (h : m.Written) (hbody : ∀ t ∈ m.body, ¬t.LoneQuote ∧ t.value ≠ "##") :
    Paste.paste m.body = m.body ∧ ∀ place, SaySame (Expand.relex m.body place) m.body := by
  refine ⟨Paste.pasteFrom_eq (fun t ht => decide_eq_false (hbody t ht).2) [], fun place => ?_⟩
  rw [Expand.relex]
  exact (Token.content_ofText ..).trans (Token.saySame_ofText_spell fun t ht => ⟨h.lexed t ht, (hbody t ht).1⟩)

end Macro

namespace Token

/-- Lexing is stable: the tokens of a text, spelled with spaces between them, are lexed as they were, as long as no quote stands alone among
them. So the body of a macro without paste operators is lexed again as it was. -/
theorem lexing_stable :
    (∀ text, (∀ t ∈ ofText text, ¬t.LoneQuote) → SaySame (ofText (spell (ofText text))) (ofText text)) ∧
    (∀ m : Macro, m.Written → (∀ t ∈ m.body, ¬t.LoneQuote ∧ t.value ≠ "##") →
      Paste.paste m.body = m.body ∧ ∀ place, SaySame (Expand.relex m.body place) m.body) := by
  refine ⟨fun text h => ?_, fun m h hbody => h.respelled hbody⟩
  exact saySame_ofText_spell fun t ht => ⟨lexed_of_mem ht, h t ht⟩

/-- A text of adjacent tokens, in which a mark, a sign or a period belongs now to one token and now to another. -/
def crowded : String :=
  "u8+u8\"a b\"...5.e+3-L'\\''u"

/-- The crowded text has no lone quotes, so lexing its spelling gives the same tokens. -/
theorem lexing_stable_crowded : (∀ t ∈ ofText crowded, ¬t.LoneQuote) ∧ SaySame (ofText (spell (ofText crowded))) (ofText crowded) ∧
    ∃ m : Macro, m.Written ∧ (∀ t ∈ m.body, ¬t.LoneQuote ∧ t.value ≠ "##") ∧
      Paste.paste m.body = m.body ∧ ∀ place, SaySame (Expand.relex m.body place) m.body := by
  have hall : ((ofText crowded).all fun t => ¬t.LoneQuote ∧ t.value ≠ "##") = true := by cbv
  have hbody : ∀ t ∈ ofText crowded, ¬t.LoneQuote ∧ t.value ≠ "##" := fun t ht => of_decide_eq_true (List.all_eq_true.mp hall t ht)
  have hlone : ∀ t ∈ ofText crowded, ¬t.LoneQuote := fun t ht => (hbody t ht).1
  have hparts : Macro.ofParams? "F" none (ofText crowded) = some { name := "F", shape := .object, body := ofText crowded } := rfl
  have hwritten := Macro.Written.parts hparts
  exact ⟨hlone, lexing_stable.1 crowded hlone, _, hwritten, hbody, lexing_stable.2 _ hwritten hbody⟩

end Token

end Prepass
