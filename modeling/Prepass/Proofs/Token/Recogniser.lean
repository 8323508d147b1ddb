import Prepass.Proofs.Text.Classes

/-!
# Recognisers

What each recogniser finds at the head of a text is part of the text. It is found again before any other text that adds nothing to it without a
blank between (`NoFurther`); a literal is found again whatever follows it.
-/

namespace Prepass

namespace Lexer

/-! ## Literals -/

section

variable {quote : Char} {marks : List (List Char)}

/-- A text without quotes is as far as a quote just when it is what stands before the first quote. -/
theorem isPrefixOf_quote {mark before : List Char} (hmark : quote ∉ mark) (hbefore : quote ∉ before) (rest : List Char) :
    (mark ++ [quote]).isPrefixOf (before ++ quote :: rest) = true ↔ mark = before := by
  induction mark generalizing before with
  | nil =>
    cases before with
    | nil => simp [List.isPrefixOf]
    | cons b before =>
      have hb : quote ≠ b := fun h => hbefore (by simp [h])
      simp [List.isPrefixOf, hb]
  | cons m mark ih =>
    cases before with
    | nil =>
      have hm : m ≠ quote := fun h => hmark (by simp [h])
      simp [List.isPrefixOf, hm]
    | cons b before =>
      have hrest := ih (fun h => hmark (List.mem_cons_of_mem m h)) (fun h => hbefore (List.mem_cons_of_mem b h))
      simp [List.isPrefixOf, hrest]

/-- Whether a literal begins is decided by what stands before the first quote. -/
theorem literal?_quote (hmarks : ∀ mark ∈ marks, quote ∉ mark) {before : List Char} (hbefore : quote ∉ before) (rest : List Char) :
    literal? quote marks (before ++ quote :: rest) =
      if before ∈ [] :: marks then (literalTail? quote rest).map (· + (before.length + 1)) else none := by
  unfold literal? markLength
  cases hfind : marks.find? fun mark => (mark ++ [quote]).isPrefixOf (before ++ quote :: rest) with
  | some mark =>
    have hmem := List.mem_of_find?_eq_some hfind
    have heq : mark = before := (isPrefixOf_quote (hmarks mark hmem) hbefore rest).mp (by simpa using List.find?_some hfind)
    subst heq
    simp [hmem]
  | none =>
    have hnot : before ∉ marks := by
      intro hmem
      exact List.find?_eq_none.mp hfind before hmem ((isPrefixOf_quote hbefore hbefore rest).mpr rfl)
    cases before with
    | nil => simp
    | cons b before =>
      have hb : b ≠ quote := fun h => hbefore (by simp [h])
      simp [hnot, hb]

/-- A text without the quote has no constant at its head. -/
theorem literal?_eq_none_of_notMem {cs : List Char} (h : quote ∉ cs) : literal? quote marks cs = none := by
  unfold literal?
  dsimp only
  split
  · rename_i c rest hdrop
    rw [if_neg]
    rintro rfl
    exact h (List.mem_of_mem_drop (hdrop ▸ List.mem_cons_self))
  · rfl

/-- A literal is a mark, or no mark, a quote, and what there is up to the closing quote. -/
theorem literal?_eq_some_iff (hmarks : ∀ mark ∈ marks, quote ∉ mark) {cs : List Char} {n : Nat} : literal? quote marks cs = some n ↔
    ∃ mark rest m, mark ∈ [] :: marks ∧ cs = mark ++ quote :: rest ∧ literalTail? quote rest = some m ∧ n = mark.length + (m + 1) := by
  constructor
  · intro h
    by_cases hmem : quote ∈ cs
    · obtain ⟨before, rest, rfl, hbefore⟩ := List.eq_append_cons_of_mem hmem
      rw [literal?_quote hmarks hbefore] at h
      split at h
      · rename_i hmark
        obtain ⟨m, hm, rfl⟩ := Option.map_eq_some_iff.mp h
        exact ⟨before, rest, m, hmark, rfl, hm, by omega⟩
      · cases h
    · rw [literal?_eq_none_of_notMem hmem] at h
      cases h
  · rintro ⟨mark, rest, m, hmark, rfl, hm, rfl⟩
    have hbefore : quote ∉ mark := by
      rcases List.mem_cons.mp hmark with rfl | hmem
      · exact List.not_mem_nil
      · exact hmarks mark hmem
    rw [literal?_quote hmarks hbefore, if_pos hmark, hm, Option.map_some, Option.some.injEq]
    omega

/-- A literal after its opening quote is there up to its closing quote. -/
theorem length_of_literalTail {cs : List Char} {n : Nat} (h : literalTail? quote cs = some n) :
    0 < n ∧ n ≤ cs.length := by
  fun_induction literalTail? quote cs generalizing n with
  | case1 => cases h
  | case2 rest =>
    cases h
    simp
  | case3 => cases h
  | case4 hquote d more ih =>
    obtain ⟨m, hm, rfl⟩ := Option.map_eq_some_iff.mp h
    have hle := ih hm
    simp only [List.length_cons]
    omega
  | case5 c rest hquote hescape ih =>
    obtain ⟨m, hm, rfl⟩ := Option.map_eq_some_iff.mp h
    have hle := ih hm
    simp only [List.length_cons]
    omega

/-- The last character of a literal is its quote. -/
theorem getLast?_literalTail {cs : List Char} {n : Nat} (h : literalTail? quote cs = some n) :
    (cs.take n).getLast? = some quote := by
  fun_induction literalTail? quote cs generalizing n with
  | case1 => cases h
  | case2 rest =>
    cases h
    simp
  | case3 => cases h
  | case4 hquote d more ih =>
    obtain ⟨m, hm, rfl⟩ := Option.map_eq_some_iff.mp h
    simp [List.getLast?_cons, ih hm]
  | case5 c rest hquote hescape ih =>
    obtain ⟨m, hm, rfl⟩ := Option.map_eq_some_iff.mp h
    simp [List.getLast?_cons, ih hm]

/-- The next quote ends a constant. -/
theorem literalTail?_quote (rest : List Char) : literalTail? quote (quote :: rest) = some 1 := by
  rw [literalTail?.eq_def]
  exact if_pos rfl

/-- A backslash takes the character after it into the constant. -/
theorem literalTail?_escape (hquote : '\\' ≠ quote) (d : Char) (more : List Char) :
    literalTail? quote ('\\' :: d :: more) = (literalTail? quote more).map (· + 2) := by
  rw [literalTail?.eq_def]
  exact (if_neg hquote).trans (if_pos rfl)

/-- Any other character is part of the constant. -/
theorem literalTail?_other {c : Char} (hquote : c ≠ quote) (hescape : c ≠ '\\') (rest : List Char) :
    literalTail? quote (c :: rest) = (literalTail? quote rest).map (· + 1) := by
  rw [literalTail?.eq_def]
  exact (if_neg hquote).trans (if_neg hescape)

/-- A literal ends at its closing quote, whatever follows. -/
theorem literalTail?_append {w tail : List Char} (h : literalTail? quote (w ++ tail) = some w.length) (tail' : List Char) :
    literalTail? quote (w ++ tail') = some w.length := by
  have hpos := (length_of_literalTail h).1
  induction w using literalTail?.induct quote with
  | case1 => cases hpos
  | case2 rest =>
    rw [List.cons_append, literalTail?_quote] at h ⊢
    exact h
  | case3 hquote =>
    cases tail with
    | nil => simp [literalTail?, hquote] at h
    | cons d more =>
      rw [List.cons_append, List.nil_append, literalTail?_escape hquote] at h
      obtain ⟨m, -, hm⟩ := Option.map_eq_some_iff.mp h
      cases hm
  | case4 d more hquote ih =>
    rw [List.cons_append, List.cons_append, literalTail?_escape hquote] at h ⊢
    obtain ⟨m, hm, hlength⟩ := Option.map_eq_some_iff.mp h
    have hmore : literalTail? quote (more ++ tail) = some more.length := by
      rw [hm]
      simpa using hlength
    rw [ih hmore (length_of_literalTail hmore).1]
    rfl
  | case5 c rest hquote hescape ih =>
    rw [List.cons_append, literalTail?_other hquote hescape] at h ⊢
    obtain ⟨m, hm, hlength⟩ := Option.map_eq_some_iff.mp h
    have hrest : literalTail? quote (rest ++ tail) = some rest.length := by
      rw [hm]
      simpa using hlength
    rw [ih hrest (length_of_literalTail hrest).1]
    rfl

/-- A literal is found again, whatever follows it. -/
theorem literal?_append (hmarks : ∀ mark ∈ marks, quote ∉ mark) {v tail : List Char} (h : literal? quote marks (v ++ tail) = some v.length)
    (tail' : List Char) : literal? quote marks (v ++ tail') = some v.length := by
  obtain ⟨mark, rest, m, hmark, hcs, hm, hlength⟩ := (literal?_eq_some_iff hmarks).mp h
  obtain ⟨hpos, hle⟩ := length_of_literalTail hm
  have hv : v = mark ++ quote :: rest.take m := by
    have htake := congrArg (List.take v.length) hcs
    rw [List.take_left, hlength, List.take_length_add_append] at htake
    exact htake
  have hrest : rest = rest.take m ++ tail := by
    rw [hv] at hcs
    simpa using hcs.symm
  have hwidth : (rest.take m).length = m := List.length_take_of_le hle
  have hclosed : literalTail? quote (rest.take m ++ tail) = some (rest.take m).length := by
    rw [← hrest, hm, hwidth]
  refine (literal?_eq_some_iff hmarks).mpr ⟨mark, rest.take m ++ tail', m, hmark, ?_, ?_, hlength⟩
  · rw [hv, List.append_assoc, List.cons_append]
  · rw [literalTail?_append hclosed, hwidth]

/-- The last character of a literal is its quote. -/
theorem getLast?_literal (hmarks : ∀ mark ∈ marks, quote ∉ mark) {cs : List Char} {n : Nat} (h : literal? quote marks cs = some n) :
    (cs.take n).getLast? = some quote := by
  obtain ⟨mark, rest, m, -, rfl, hm, rfl⟩ := (literal?_eq_some_iff hmarks).mp h
  rw [List.take_length_add_append, List.getLast?_append, List.take_succ_cons, List.getLast?_cons, getLast?_literalTail hm]
  rfl

/-- A constant is not empty, and no longer than the text. -/
theorem length_of_literal (hmarks : ∀ mark ∈ marks, quote ∉ mark) {cs : List Char} {n : Nat} (h : literal? quote marks cs = some n) :
    0 < n ∧ n ≤ cs.length := by
  obtain ⟨mark, rest, m, -, rfl, hm, rfl⟩ := (literal?_eq_some_iff hmarks).mp h
  have hle := (length_of_literalTail hm).2
  simp only [List.length_append, List.length_cons]
  omega

end

theorem apostrophe_notMem_characterMarks : ∀ mark ∈ characterMarks, Text.apostrophe ∉ mark := by
  decide

theorem quote_notMem_stringMarks : ∀ mark ∈ stringMarks, '"' ∉ mark := by
  decide

-- these are decided by going through the marks, and not through all characters
/-- Neither a mark of character constants nor the apostrophe after it is blank. -/
theorem isBlank_of_mem_characterMarks : ∀ mark ∈ [] :: characterMarks, ∀ c ∈ mark ++ [Text.apostrophe], Text.isBlank c = false := by
  have hall : (([] :: characterMarks).all fun mark => (mark ++ [Text.apostrophe]).all fun c => !Text.isBlank c) = true := by decide
  simpa only [List.all_eq_true, Bool.not_eq_true'] using hall

/-- Neither a mark of string constants nor the quote after it is blank. -/
theorem isBlank_of_mem_stringMarks : ∀ mark ∈ [] :: stringMarks, ∀ c ∈ mark ++ ['"'], Text.isBlank c = false := by
  have hall : (([] :: stringMarks).all fun mark => (mark ++ ['"']).all fun c => !Text.isBlank c) = true := by decide
  simpa only [List.all_eq_true, Bool.not_eq_true'] using hall

/-! ## What follows a lexeme -/

/-- A text that goes on without a blank no further than another one does. -/
def NoFurther (tail tail' : List Char) : Prop :=
  ∀ run, (∀ c ∈ run, Text.isBlank c = false) → run <+: tail' → run <+: tail

namespace NoFurther

variable {tail tail' : List Char}

/-- A text that begins with a blank, or is empty, adds nothing. -/
theorem of_blank (h : ∀ c ∈ tail'.head?, Text.isBlank c = true) : NoFurther tail tail' := by
  intro run hrun hinitial
  cases run with
  | nil => exact List.nil_prefix
  | cons c run =>
    obtain ⟨more, rfl⟩ := hinitial
    have hblank := h c rfl
    rw [hrun c List.mem_cons_self] at hblank
    cases hblank

/-- A character that is not blank and begins the text that goes on begins the other one as well. -/
theorem head (h : NoFurther tail tail') {c : Char} (hc : Text.isBlank c = false) (hhead : tail'.head? = some c) :
    tail.head? = some c := by
  obtain ⟨more, rfl⟩ := List.head?_eq_some_iff.mp hhead
  obtain ⟨rest, rfl⟩ := h [c] (by simpa using hc) ⟨more, rfl⟩
  rfl

/-- What the first characters satisfy of one text, they satisfy of the other. -/
theorem head_of {p : Char → Bool} (h : NoFurther tail tail') (hblank : ∀ c, p c = true → Text.isBlank c = false)
    (hhead : ∀ c ∈ tail.head?, p c = false) : ∀ c ∈ tail'.head?, p c = false := by
  intro c hc
  rw [Bool.eq_false_iff]
  intro hp
  have hfalse := hhead c (h.head (hblank c hp) hc)
  rw [hp] at hfalse
  cases hfalse

/-- The texts may have the same text before them. -/
theorem append (h : NoFurther tail tail') (v : List Char) : NoFurther (v ++ tail) (v ++ tail') := by
  intro run hrun hinitial
  rcases List.prefix_or_prefix_of_prefix hinitial (List.prefix_append v tail') with hv | ⟨more, rfl⟩
  · exact hv.trans (List.prefix_append v tail)
  · have hmore := (List.prefix_append_right_inj v).mp hinitial
    exact (List.prefix_append_right_inj v).mpr (h more (fun c hc => hrun c (List.mem_append_right v hc)) hmore)

end NoFurther

/-! ## Numbers -/

/-- A sign after the letter of an exponent is part of the number. -/
theorem numberTail_exponent {c d : Char} (h : (isExponent c && isSign d) = true) (rest : List Char) :
    numberTail (c :: d :: rest) = numberTail rest + 2 := by
  rw [numberTail, if_pos h]

/-- Where no exponent with a sign stands, a number goes on character by character. -/
theorem numberTail_part {c : Char} {rest : List Char} (h : ∀ d ∈ rest.head?, (isExponent c && isSign d) = false) :
    numberTail (c :: rest) = if isNumberPart c then numberTail rest + 1 else 0 := by
  cases rest with
  | nil => rfl
  | cons d rest =>
    rw [numberTail, if_neg (Bool.eq_false_iff.mp (h d rfl))]

/-- A number ends where the next character can be no part of one. -/
theorem numberTail_eq_zero_iff {cs : List Char} : numberTail cs = 0 ↔ ∀ c ∈ cs.head?, isNumberPart c = false := by
  cases cs with
  | nil => simp [numberTail]
  | cons c rest =>
    by_cases hpart : isNumberPart c = true
    · cases rest with
      | nil => simp [numberTail, hpart]
      | cons d rest =>
        have hpos : numberTail (c :: d :: rest) ≠ 0 := by
          rw [numberTail, if_pos hpart]
          split <;> simp
        simp [hpart, hpos]
    · have hexponent : isExponent c = false := Bool.eq_false_iff.mpr fun h => hpart (isNumberPart_of_isExponent h)
      rw [numberTail_part (by simp [hexponent]), if_neg hpart]
      simpa using hpart

/-- The rest of a number is no longer than the text. -/
theorem numberTail_le_length (cs : List Char) : numberTail cs ≤ cs.length := by
  fun_induction numberTail cs <;> simp only [List.length_cons, List.length_nil] at * <;> omega

/-- What continues a number has number characters only, and signs after exponents. -/
theorem forall_mem_numberTail {p : Char → Prop} (hpart : ∀ c, isNumberPart c = true → p c) (hsign : ∀ c, isSign c = true → p c)
    {cs : List Char} : ∀ c ∈ cs.take (numberTail cs), p c := by
  fun_induction numberTail cs with
  | case1 => simp
  | case2 c h => simpa using hpart c h
  | case3 => simp
  | case4 c d rest h ih =>
    obtain ⟨hc, hd⟩ := Bool.and_eq_true_iff.mp h
    simpa [hpart c (isNumberPart_of_isExponent hc), hsign d hd] using ih
  | case5 c d rest _ h ih => simpa [hpart c h] using ih
  | case6 => simp

/-- A number that ends with a text still ends there when what follows goes on no further. -/
theorem numberTail_append {v tail tail' : List Char} (hfurther : NoFurther tail tail') (h : numberTail (v ++ tail) = v.length) :
    numberTail (v ++ tail') = v.length := by
  induction v using numberTail.induct with
  | case1 => exact numberTail_eq_zero_iff.mpr (hfurther.head_of (fun _ => isBlank_of_isNumberPart) (numberTail_eq_zero_iff.mp h))
  | case2 c hpart =>
    -- were a sign to follow an exponent, it would be part of the number
    have hsign : ∀ d ∈ tail.head?, (isExponent c && isSign d) = false := by
      intro d hd
      obtain ⟨more, rfl⟩ := List.head?_eq_some_iff.mp hd
      rw [Bool.eq_false_iff]
      intro hexponent
      rw [List.singleton_append, numberTail_exponent hexponent] at h
      simp at h
    have hsign' : ∀ d ∈ tail'.head?, (isExponent c && isSign d) = false :=
      hfurther.head_of (fun d hd => isBlank_of_isSign (Bool.and_eq_true_iff.mp hd).2) hsign
    rw [List.singleton_append, numberTail_part hsign, if_pos hpart, List.length_singleton, Nat.add_eq_right,
      numberTail_eq_zero_iff] at h
    rw [List.singleton_append, numberTail_part hsign', if_pos hpart, List.length_singleton, Nat.add_eq_right,
      numberTail_eq_zero_iff]
    exact hfurther.head_of (fun _ => isBlank_of_isNumberPart) h
  | case3 c hpart =>
    have hzero : numberTail (c :: tail) = 0 := numberTail_eq_zero_iff.mpr (by simpa using hpart)
    rw [List.singleton_append, hzero] at h
    cases h
  | case4 c d rest hexponent ih =>
    rw [List.cons_append, List.cons_append, numberTail_exponent hexponent] at h ⊢
    rw [ih (by simpa using h)]
    rfl
  | case5 c d rest hexponent hpart ih =>
    have hnone (more : List Char) : ∀ e ∈ (d :: more).head?, (isExponent c && isSign e) = false := by simpa using hexponent
    rw [List.cons_append, List.cons_append, numberTail_part (hnone _), if_pos hpart] at h ⊢
    rw [← List.cons_append, ih (by simpa using h)]
    rfl
  | case6 c d rest hexponent hpart =>
    have hnone : ∀ e ∈ (d :: (rest ++ tail)).head?, (isExponent c && isSign e) = false := by simpa using hexponent
    rw [List.cons_append, List.cons_append, numberTail_part hnone, if_neg hpart] at h
    cases h

/-- A number that does not begin with a period begins with a digit. -/
theorem number?_cons {c : Char} (hc : c ≠ '.') (rest : List Char) :
    number? (c :: rest) = if Text.isDigit c then some (numberTail rest + 1) else none := by
  unfold number?
  split
  · rename_i heq
    cases heq
    exact absurd rfl hc
  · rename_i heq
    cases heq
    rfl
  · rename_i heq
    cases heq

/-- A number that begins with a period has a digit after it. -/
theorem number?_period (d : Char) (rest : List Char) :
    number? ('.' :: d :: rest) = if Text.isDigit d then some (numberTail rest + 2) else none :=
  rfl

theorem number?_period_alone : number? ['.'] = none := by
  decide

/-- A text that is a number is one whatever follows, as long as it goes on no further. -/
theorem number?_append {v tail tail' : List Char} (hfurther : NoFurther tail tail') (hv : v ≠ [])
    (h : number? (v ++ tail) = some v.length) : number? (v ++ tail') = some v.length := by
  cases v with
  | nil => exact absurd rfl hv
  | cons c v =>
    by_cases hc : c = '.'
    · subst hc
      cases v with
      | nil =>
        -- a period alone is no number
        cases tail with
        | nil =>
          rw [List.append_nil, number?_period_alone] at h
          cases h
        | cons d more =>
          rw [List.singleton_append, number?_period] at h
          split at h <;> simp at h
      | cons d v =>
        rw [List.cons_append, List.cons_append, number?_period] at h ⊢
        split at h
        · rename_i hd
          rw [if_pos hd, numberTail_append hfurther (by simpa using h)]
          rfl
        · cases h
    · rw [List.cons_append, number?_cons hc] at h ⊢
      split at h
      · rename_i hd
        rw [if_pos hd, numberTail_append hfurther (by simpa using h)]
        rfl
      · cases h

/-- A text that begins with no number begins with none whatever follows, as long as it goes on no further. -/
theorem number?_append_none {v tail tail' : List Char} (hfurther : NoFurther tail tail') (hv : v ≠ [])
    (h : number? (v ++ tail) = none) : number? (v ++ tail') = none := by
  have hdigit {d : Char} {n : Nat} (h : (if Text.isDigit d then some n else none) = none) : Text.isDigit d = false := by
    simpa using h
  cases v with
  | nil => exact absurd rfl hv
  | cons c v =>
    by_cases hc : c = '.'
    · subst hc
      cases v with
      | nil =>
        have hnone : ∀ d ∈ tail'.head?, Text.isDigit d = false := by
          refine hfurther.head_of (fun _ => Text.isBlank_of_isDigit) fun d hd => ?_
          obtain ⟨more, rfl⟩ := List.head?_eq_some_iff.mp hd
          exact hdigit h
        cases tail' with
        | nil => exact number?_period_alone
        | cons d more =>
          rw [List.singleton_append, number?_period, hnone d rfl]
          rfl
      | cons d v =>
        rw [List.cons_append, List.cons_append, number?_period] at h ⊢
        rw [hdigit h]
        rfl
    · rw [List.cons_append, number?_cons hc] at h ⊢
      rw [hdigit h]
      rfl

/-- A number is a digit, perhaps after a period, and what continues it. -/
theorem number?_eq_some {cs : List Char} {n : Nat} (h : number? cs = some n) :
    ∃ first rest, cs = first ++ rest ∧ n = first.length + numberTail rest ∧ first ≠ [] ∧ ∀ c ∈ first, Text.isDigit c = true ∨ c = '.' := by
  cases cs with
  | nil => cases h
  | cons c rest =>
    by_cases hc : c = '.'
    · subst hc
      cases rest with
      | nil =>
        rw [number?_period_alone] at h
        cases h
      | cons d rest =>
        rw [number?_period] at h
        split at h
        · rename_i hd
          cases h
          exact ⟨['.', d], rest, rfl, Nat.add_comm .., List.cons_ne_nil _ _, by simp [hd]⟩
        · cases h
    · rw [number?_cons hc] at h
      split at h
      · rename_i hd
        cases h
        exact ⟨[c], rest, rfl, Nat.add_comm .., List.cons_ne_nil _ _, by simp [hd]⟩
      · cases h

/-- What digits, number characters and signs satisfy, all characters of a number do. -/
theorem forall_mem_number {p : Char → Prop} (hdigit : ∀ c, Text.isDigit c = true → p c) (hpart : ∀ c, isNumberPart c = true → p c)
    (hsign : ∀ c, isSign c = true → p c) {cs : List Char} {n : Nat} (h : number? cs = some n) : ∀ c ∈ cs.take n, p c := by
  obtain ⟨first, rest, rfl, rfl, -, hfirst⟩ := number?_eq_some h
  rw [List.take_length_add_append]
  refine List.forall_mem_append.mpr ⟨fun c hc => ?_, forall_mem_numberTail hpart hsign⟩
  rcases hfirst c hc with hc | rfl
  · exact hdigit c hc
  · exact hpart '.' (by decide)

/-- A number is in the text, and there are no blanks in it. -/
theorem number_in_text {cs : List Char} {n : Nat} (h : number? cs = some n) :
    0 < n ∧ n ≤ cs.length ∧ ∀ c ∈ cs.take n, Text.isBlank c = false := by
  have hplain := forall_mem_number (fun _ => Text.isBlank_of_isDigit) (fun _ => isBlank_of_isNumberPart) (fun _ => isBlank_of_isSign) h
  obtain ⟨first, rest, rfl, rfl, hne, -⟩ := number?_eq_some h
  have hpos := List.length_pos_iff.mpr hne
  have hle := numberTail_le_length rest
  rw [List.length_append]
  exact ⟨by omega, by omega, hplain⟩

/-! ## Identifiers -/

/-- A text is taken just up to a place when its characters up to there satisfy the test and the next one does not. -/
theorem length_takeWhile_append_iff {p : Char → Bool} {v tail : List Char} :
    ((v ++ tail).takeWhile p).length = v.length ↔ (∀ c ∈ v, p c = true) ∧ ∀ c ∈ tail.head?, p c = false := by
  induction v with
  | nil =>
    cases tail with
    | nil => simp
    | cons c tail => cases hc : p c <;> simp [hc]
  | cons c v ih => cases hc : p c <;> simp [hc, ih]

/-- A text that is an identifier is one whatever follows, as long as it goes on no further. -/
theorem identifier?_append {v tail tail' : List Char} (hfurther : NoFurther tail tail') (hv : v ≠ [])
    (h : identifier? (v ++ tail) = some v.length) : identifier? (v ++ tail') = some v.length := by
  cases v with
  | nil => exact absurd rfl hv
  | cons c v =>
    rw [List.cons_append, identifier?] at h ⊢
    split at h
    · rename_i hstart
      have hlength : ((v ++ tail).takeWhile isIdentifierPart).length = v.length := by simpa using h
      obtain ⟨hpart, hstop⟩ := length_takeWhile_append_iff.mp hlength
      have hstop' := hfurther.head_of (fun _ => isBlank_of_isIdentifierPart) hstop
      rw [if_pos hstart, length_takeWhile_append_iff.mpr ⟨hpart, hstop'⟩]
      rfl
    · cases h

/-- Whether a text begins with an identifier is decided by its first character. -/
theorem identifier?_append_none {v tail : List Char} (hv : v ≠ []) (h : identifier? (v ++ tail) = none) (tail' : List Char) :
    identifier? (v ++ tail') = none := by
  cases v with
  | nil => exact absurd rfl hv
  | cons c v =>
    rw [List.cons_append, identifier?] at h ⊢
    split at h
    · cases h
    · rename_i hstart
      exact if_neg hstart

/-- An identifier is in the text, and it has characters of identifiers only. -/
theorem identifier_in_text {cs : List Char} {n : Nat} (h : identifier? cs = some n) :
    0 < n ∧ n ≤ cs.length ∧ ∀ c ∈ cs.take n, isIdentifierPart c = true := by
  cases cs with
  | nil => cases h
  | cons c rest =>
    rw [identifier?] at h
    split at h
    · rename_i hstart
      cases h
      have hinitial := List.takeWhile_prefix isIdentifierPart (l := rest)
      refine ⟨by omega, by simpa using hinitial.length_le, ?_⟩
      rw [List.take_succ_cons, ← List.prefix_iff_eq_take.mp hinitial]
      exact List.forall_mem_cons.mpr ⟨isIdentifierPart_of_start hstart, List.all_eq_true.mp List.all_takeWhile⟩
    · cases h

/-! ## Punctuators -/

/-- No longer punctuator has a blank or a quote in it. -/
theorem plain_of_mem_longPunctuators : ∀ p ∈ longPunctuators, ∀ c ∈ p, Text.isBlank c = false ∧ c ≠ Text.apostrophe ∧ c ≠ '"' := by
  have hall : (longPunctuators.all fun p => p.all fun c => !Text.isBlank c && (c != Text.apostrophe && c != '"')) = true := by decide
  simpa only [List.all_eq_true, Bool.and_eq_true, Bool.not_eq_true', bne_iff_ne] using hall

/-- A punctuator is one of those of more than one character, or the first character of the text. -/
theorem punctuator_in_text {cs : List Char} (hcs : cs ≠ []) : 0 < punctuatorLength cs ∧ punctuatorLength cs ≤ cs.length ∧
    (cs.take (punctuatorLength cs) ∈ longPunctuators ∨ punctuatorLength cs = 1) := by
  have hlong : ∀ p ∈ longPunctuators, 0 < p.length := by decide
  unfold punctuatorLength
  cases hfind : longPunctuators.find? (·.isPrefixOf cs) with
  | none =>
    have hpos := List.length_pos_iff.mpr hcs
    exact ⟨Nat.zero_lt_one, hpos, .inr rfl⟩
  | some p =>
    have hmem := List.mem_of_find?_eq_some hfind
    have hinitial : p <+: cs := List.isPrefixOf_iff_prefix.mp (by simpa using List.find?_some hfind)
    refine ⟨hlong p hmem, hinitial.length_le, .inl ?_⟩
    rw [Option.map_some, Option.getD_some, ← List.prefix_iff_eq_take.mp hinitial]
    exact hmem

/-- A text that is a punctuator is one whatever follows, as long as it goes on no further. -/
theorem punctuatorLength_append {v tail tail' : List Char} (hfurther : NoFurther tail tail')
    (h : punctuatorLength (v ++ tail) = v.length) : punctuatorLength (v ++ tail') = v.length := by
  -- what is no beginning of the one text is none of the other
  have hnot {p : List Char} (hp : p ∈ longPunctuators) (hcs : p.isPrefixOf (v ++ tail) = false) : p.isPrefixOf (v ++ tail') = false := by
    rw [Bool.eq_false_iff, ne_eq, List.isPrefixOf_iff_prefix] at hcs ⊢
    exact fun hinitial => hcs (hfurther.append v p (fun c hc => (plain_of_mem_longPunctuators p hp c hc).1) hinitial)
  unfold punctuatorLength at h ⊢
  cases hfind : longPunctuators.find? (·.isPrefixOf (v ++ tail)) with
  | none =>
    have hfind' : longPunctuators.find? (·.isPrefixOf (v ++ tail')) = none := by
      rw [List.find?_eq_none] at hfind ⊢
      exact fun p hp => Bool.eq_false_iff.mp (hnot hp (Bool.eq_false_iff.mpr (hfind p hp)))
    rw [hfind] at h
    rw [hfind']
    exact h
  | some p =>
    obtain ⟨hp, before, after, hlist, hbefore⟩ := List.find?_eq_some_iff_append.mp hfind
    rw [hfind] at h
    have hpv : p = v := by
      have hinitial : p <+: v ++ tail := List.isPrefixOf_iff_prefix.mp hp
      have hlength : p.length = v.length := h
      rw [List.prefix_iff_eq_take.mp hinitial, hlength, List.take_left]
    subst hpv
    have hfind' : longPunctuators.find? (·.isPrefixOf (p ++ tail')) = some p := by
      refine List.find?_eq_some_iff_append.mpr ⟨?_, before, after, hlist, ?_⟩
      · exact List.isPrefixOf_iff_prefix.mpr (List.prefix_append p tail')
      · intro q hq
        have hmem : q ∈ longPunctuators := by
          rw [hlist]
          exact List.mem_append_left _ hq
        exact (Bool.not_eq_true' _).mpr (hnot hmem ((Bool.not_eq_true' _).mp (hbefore q hq)))
    rw [hfind']
    rfl

end Lexer

end Prepass
