import Prepass.Proofs.Token.Reading

/-!
# Tokens laid out and lexed again

Laying out the tokens of a text gives the text back with each run of blanks between tokens as one space, and without the blanks after the last
token (`Lexer.tightened_layout`). Such a text has the same tokens at other places (`Token.ofText_layout`). A lexeme goes on no further than
it did, since no two characters come together that were apart. Nor is a quote that stands alone closed: a run of blanks holds no quote, and
an escape that takes one blank along reaches no further than the run it is in, so a literal is closed in the one text just when it is in the
other (`Lexer.Tightened.closes_eq`).
-/

namespace Prepass

namespace Token

/-- The token without its place. -/
def unplaced (t : Token) : Token :=
  { t with line := 1, column := 0, uri := "" }

@[simp]
theorem value_unplaced (t : Token) : t.unplaced.value = t.value := rfl

@[simp]
theorem kind_unplaced (t : Token) : t.unplaced.kind = t.kind := rfl

end Token

namespace Lexer

/-- A text with some of its runs of blanks made one space each, and perhaps without the blanks at its end. -/
inductive Tightened : List Char → List Char → Prop
  | done {blanks : List Char} (h : ∀ c ∈ blanks, Text.isBlank c = true) : Tightened blanks []
  | keep (c : Char) {cs cs' : List Char} (h : Tightened cs cs') : Tightened (c :: cs) (c :: cs')
  | gap {blanks cs cs' : List Char} (hne : blanks ≠ []) (hblanks : ∀ c ∈ blanks, Text.isBlank c = true) (h : Tightened cs cs') :
    Tightened (blanks ++ cs) (' ' :: cs')

/-- Whether a literal is closed in the text after its opening quote, or after a backslash when `escaped` holds. -/
def closes (quote : Char) (escaped : Bool) : List Char → Bool
  | [] => false
  | c :: rest => if escaped then closes quote false rest else c = quote || closes quote (c = '\\') rest

/-- A literal is closed when its tail can be read. -/
theorem closes_eq_isSome (quote : Char) (cs : List Char) : closes quote false cs = (literalTail? quote cs).isSome := by
  fun_induction literalTail? quote cs with
  | case1 => rfl
  | case2 rest => simp [closes]
  | case3 hne => simp [closes, hne]
  | case4 d more hne ih => simpa [closes, hne] using ih
  | case5 c rest hne hescape ih => simpa [closes, hne, hescape] using ih

/-- Blanks neither close a literal nor escape what follows them. -/
theorem closes_blanks {quote : Char} (hquote : Text.isBlank quote = false) (escaped : Bool) {blanks : List Char} (hne : blanks ≠ [])
    (hblanks : ∀ c ∈ blanks, Text.isBlank c = true) (cs : List Char) : closes quote escaped (blanks ++ cs) = closes quote false cs := by
  induction blanks generalizing escaped with
  | nil => exact absurd rfl hne
  | cons c blanks ih =>
    obtain ⟨hc, hblanks⟩ := List.forall_mem_cons.mp hblanks
    have hplain {d : Char} (hd : Text.isBlank d = false) : c ≠ d := by
      rintro rfl
      rw [hc] at hd
      cases hd
    have hhead : closes quote escaped (c :: (blanks ++ cs)) = closes quote false (blanks ++ cs) := by
      have hescape : c ≠ '\\' := hplain (by decide)
      cases escaped <;> simp [closes, hplain hquote, hescape]
    rw [List.cons_append, hhead]
    cases blanks with
    | nil => rfl
    | cons d blanks => exact ih false (List.cons_ne_nil d blanks) hblanks

namespace Tightened

variable {cs cs' : List Char}

/-- A text in front of a tightened one stays as it is. -/
theorem append (h : Tightened cs cs') (v : List Char) : Tightened (v ++ cs) (v ++ cs') := by
  induction v with
  | nil => exact h
  | cons c v ih => exact .keep c ih

/-- A literal is closed in the one text just when it is in the other. -/
theorem closes_eq {quote : Char} (hquote : Text.isBlank quote = false) (h : Tightened cs cs') (escaped : Bool) :
    closes quote escaped cs = closes quote escaped cs' := by
  induction h generalizing escaped with
  | @done blanks hblanks =>
    by_cases hne : blanks = []
    · rw [hne]
    · have hclosed := closes_blanks hquote escaped hne hblanks []
      rwa [List.append_nil] at hclosed
  | keep c _ ih => simp only [closes, ih]
  | gap hne hblanks _ ih =>
    rw [closes_blanks hquote escaped hne hblanks, ih]
    have hspace := closes_blanks hquote escaped (List.cons_ne_nil ' ' []) (List.forall_mem_singleton.mpr (by decide))
    exact (hspace _).symm

/-- What is there without a blank was there without a blank. -/
theorem exists_of_run {run rest' : List Char} (hrun : ∀ c ∈ run, Text.isBlank c = false) (h : Tightened cs (run ++ rest')) :
    ∃ rest, cs = run ++ rest ∧ Tightened rest rest' := by
  induction run generalizing cs with
  | nil => exact ⟨cs, rfl, h⟩
  | cons c run ih =>
    obtain ⟨hc, hrun⟩ := List.forall_mem_cons.mp hrun
    cases h with
    | keep _ h =>
      obtain ⟨rest, rfl, hrest⟩ := ih hrun h
      exact ⟨rest, rfl, hrest⟩
    | gap => exact absurd hc (by decide)

/-- A tightened text goes on without a blank no further than it did before. -/
theorem noFurther (h : Tightened cs cs') : NoFurther cs cs' := by
  rintro run hrun ⟨rest', rfl⟩
  obtain ⟨rest, rfl, -⟩ := h.exists_of_run hrun
  exact List.prefix_append run rest

/-- Where no literal is, none comes to be. -/
theorem literal?_eq_none {quote : Char} {marks : List (List Char)} (hmarks : ∀ mark ∈ marks, quote ∉ mark)
    (hplain : ∀ mark ∈ [] :: marks, ∀ c ∈ mark ++ [quote], Text.isBlank c = false) (h : Tightened cs cs')
    (hnone : literal? quote marks cs = none) : literal? quote marks cs' = none := by
  cases hliteral : literal? quote marks cs' with
  | none => rfl
  | some n =>
    obtain ⟨mark, rest', m, hmark, rfl, hm, -⟩ := (literal?_eq_some_iff hmarks).mp hliteral
    rw [List.append_cons] at h
    obtain ⟨rest, rfl, hrest⟩ := h.exists_of_run (hplain mark hmark)
    have hquote : Text.isBlank quote = false := hplain mark hmark quote (by simp)
    have hclosed : (literalTail? quote rest).isSome = true := by
      rw [← closes_eq_isSome, hrest.closes_eq hquote, closes_eq_isSome, hm]
      rfl
    obtain ⟨k, hk⟩ := Option.isSome_iff_exists.mp hclosed
    rw [← List.append_cons, (literal?_eq_some_iff hmarks).mpr ⟨mark, rest, k, hmark, rfl, hk, rfl⟩] at hnone
    cases hnone

end Tightened

/-- A lexeme is found again when what follows it is tightened. -/
theorem Starts.tightened {v tail tail' : List Char} {kind : Token.Kind} (h : Starts v tail kind) (htail : Tightened tail tail') :
    Starts v tail' kind := by
  have htext := htail.append v
  refine ⟨h.ne_nil, h.first, h.finds.append rfl h.ne_nil htail.noFurther ?_ ?_⟩
  · exact fun _ => htext.literal?_eq_none apostrophe_notMem_characterMarks isBlank_of_mem_characterMarks
  · exact fun _ => htext.literal?_eq_none quote_notMem_stringMarks isBlank_of_mem_stringMarks

/-! ## Layout -/

/-- A token is laid out after a blank when it is spaced, and the others follow. -/
theorem toList_layout_cons (t : Token) (ts : List Token) :
    (Token.layout (t :: ts)).toList = (if t.spaced then ' ' :: t.value.toList else t.value.toList) ++ (Token.layout ts).toList := by
  rw [Token.layout, List.map_cons, String.join_cons, String.toList_append]
  split
  · rw [String.toList_append]
    rfl
  · rfl

/-- The tokens of a text, laid out, are the text tightened, together with the blanks before it. -/
theorem tightened_layout (line : Int) (uri : String) (column : Int) (spaced : Bool) (blanks cs : List Char)
    (hblanks : ∀ c ∈ blanks, Text.isBlank c = true) (hspaced : spaced = true ↔ blanks ≠ []) :
    Tightened (blanks ++ cs) (Token.layout (scan line uri column spaced cs)).toList := by
  induction cs using reading_induction generalizing blanks column spaced with
  | nil =>
    rw [scan_nil, List.append_nil]
    exact .done hblanks
  | blank c rest hc ih =>
    rw [scan_blank hc, List.append_cons]
    refine ih (column + 1) true (blanks ++ [c]) ?_ (by simp)
    intro d hd
    rcases List.mem_append.mp hd with hd | hd
    · exact hblanks d hd
    · rw [List.mem_singleton.mp hd]
      exact hc
  | lexeme v tail kind hstarts ih =>
    have htail := ih (column + v.length) false [] (by simp) (by simp)
    rw [hstarts.scan_eq, toList_layout_cons]
    cases spaced with
    | true => simpa using Tightened.gap (hspaced.mp rfl) hblanks (htail.append v)
    | false =>
      have hnil : blanks = [] := Decidable.not_not.mp fun hne => absurd (hspaced.mpr hne) (by decide)
      rw [hnil]
      simpa using htail.append v

/-- The tokens of a text are lexed again from their layout. -/
theorem scan_layout (line line' column column' : Int) (uri uri' : String) (spaced : Bool) (cs : List Char) :
    (scan line' uri' column' false (Token.layout (scan line uri column spaced cs)).toList).map Token.unplaced =
      (scan line uri column spaced cs).map Token.unplaced := by
  induction cs using reading_induction generalizing column column' spaced with
  | nil =>
    rw [scan_nil]
    exact congrArg _ scan_nil
  | blank c rest hc ih =>
    rw [scan_blank hc]
    exact ih ..
  | lexeme v tail kind hstarts ih =>
    have htail : Tightened tail (Token.layout (scan line uri (column + v.length) false tail)).toList :=
      tightened_layout line uri (column + v.length) false [] tail (by simp) (by simp)
    have hlaid := hstarts.tightened htail
    have hspace : Text.isBlank ' ' = true := by decide
    rw [hstarts.scan_eq, toList_layout_cons]
    cases spaced with
    | true =>
      rw [if_pos rfl, List.cons_append, scan_blank hspace, String.toList_ofList, hlaid.scan_eq, List.map_cons, List.map_cons, ih]
      rfl
    | false =>
      rw [if_neg Bool.false_ne_true, String.toList_ofList, hlaid.scan_eq, List.map_cons, List.map_cons, ih]
      rfl

end Lexer

/-- Tokens that are lexed from a text are lexed again from their layout, at other places. -/
theorem Token.ofText_layout (text : String) (line line' : Int) (uri uri' : String) :
    (ofText (layout (ofText text line uri)) line' uri').map unplaced = (ofText text line uri).map unplaced :=
  Lexer.scan_layout ..

end Prepass
