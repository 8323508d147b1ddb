import Mathlib
import Prepass.Proofs.Expression.Operands

/-!
# Integer constants

In C an integer constant is a mark of its base, or none, the digits of the base and a suffix (`Denotes`). The constants that are converted are
`Accepted`: digits of every script count, an underscore may stand between two of them, the mark of the base may stand once more after a
zero, and decimal digits are limited. A lexed number is converted to the number it stands for just when it is accepted, and refused as no
integer constant otherwise. On plain texts that are not too long this is what C says, and every constant of C is plain (`integer_of_lexed_number`).
-/

namespace Prepass

namespace Word

/-- The word stands for a number up to a multiple of `2 ^ 64`, and it is unsigned if it has to be or the number is too great for a signed
word. -/
def Represents (w : Word) (n : Nat) (unsigned : Bool) : Prop :=
  w.value = n % 2 ^ 64 ∧ w.unsigned = (unsigned || decide (2 ^ 63 - 1 < n))

/-- The word of a number. -/
def ofNatural (n : Nat) (unsigned : Bool) : Word :=
  { bits := BitVec.ofNat 64 n, unsigned := unsigned || decide (2 ^ 63 - 1 < n) }

/-- The word of a number stands for it. -/
theorem represents_ofNatural (n : Nat) (unsigned : Bool) : (ofNatural n unsigned).Represents n unsigned := by
  refine ⟨?_, rfl⟩
  unfold value ofNatural
  dsimp only
  split
  · rw [BitVec.toNat_ofNat]
    norm_cast
  · rename_i hsigned
    rw [Bool.not_eq_true, Bool.or_eq_false_iff, decide_eq_false_iff_not] at hsigned
    have hmod : n % 2 ^ 64 = n := Nat.mod_eq_of_lt (by omega)
    rw [BitVec.toInt_eq_toNat_cond, BitVec.toNat_ofNat, hmod, if_pos (by omega)]
    omega

/-- Two words that stand for the same number, both unsigned if it has to be, are the same. -/
theorem Represents.eq {w w' : Word} {n : Nat} {unsigned : Bool} (h : w.Represents n unsigned) (h' : w'.Represents n unsigned) : w = w' := by
  obtain ⟨hvalue, hunsigned⟩ := h
  rw [← h'.1] at hvalue
  rw [← h'.2] at hunsigned
  obtain ⟨bits, u⟩ := w
  obtain ⟨bits', u'⟩ := w'
  cases hunsigned
  unfold value at hvalue
  dsimp only at hvalue
  split at hvalue
  · rw [BitVec.eq_of_toNat_eq (Int.ofNat_inj.mp hvalue)]
  · rw [BitVec.eq_of_toInt_eq hvalue]

/-- Only the word of a number stands for it. -/
theorem represents_iff {w : Word} {n : Nat} {unsigned : Bool} : w.Represents n unsigned ↔ w = ofNatural n unsigned := by
  constructor
  · intro h
    exact h.eq (represents_ofNatural n unsigned)
  · rintro rfl
    exact represents_ofNatural n unsigned

end Word

/-- Without blanks and signs an integer is a natural number. -/
theorem Text.integer?_eq {base : Nat} {cs : List Char} (hblank : ∀ c ∈ cs, isBlank c = false) (hsign : ∀ c ∈ cs.head?, c ≠ '-' ∧ c ≠ '+') :
    integer? base cs = (natural? base cs).map Int.ofNat := by
  have hpadding : ∀ c ∈ cs, isPadding c = false := fun c hc => by simp [isPadding, hblank c hc]
  have hdrop {cs : List Char} (h : ∀ c ∈ cs, isPadding c = false) : cs.dropWhile isPadding = cs :=
    List.dropWhile_eq_self_iff.mpr fun _ => by simp [h]
  unfold integer?
  rw [hdrop hpadding, hdrop (by simpa using hpadding), List.reverse_reverse]
  dsimp only
  split
  · exact absurd rfl (hsign _ rfl).2
  · exact absurd rfl (hsign _ rfl).1
  · rfl

namespace Constant

/-! ## Constants -/

/-- The base of a text by how it begins, and the text without the mark of the base. A zero with no other mark is a digit of its base. -/
inductive Numeral : Nat → List Char → List Char → Prop
  | hexadecimal {m : Char} {digits : List Char} (hm : m = 'x' ∨ m = 'X') : Numeral 16 digits ('0' :: m :: digits)
  | binary {m : Char} {digits : List Char} (hm : m = 'b' ∨ m = 'B') : Numeral 2 digits ('0' :: m :: digits)
  | octal {digits : List Char} (hdigits : ∀ m ∈ digits.head?, m ∉ ['x', 'X', 'b', 'B']) : Numeral 8 ('0' :: digits) ('0' :: digits)
  | decimal {c : Char} {digits : List Char} (hc : c ≠ '0') : Numeral 10 (c :: digits) (c :: digits)

/-- The text is an integer constant with a suffix, in which `Digits` says which texts are the digits of a base. The number is that of
the digits, and the suffix says whether it is unsigned. -/
def Written (Digits : Nat → List Char → List Nat → Prop) (cs : List Char) (n : Nat) (unsigned : Bool) : Prop :=
  ∃ base digits ds text suffix, cs = text ++ suffix ∧ Numeral base digits text ∧ Digits base digits ds ∧
    (∀ c ∈ suffix, isSuffix c = true) ∧ n = Nat.ofDigits base ds.reverse ∧ unsigned = suffix.any isUnsignedSuffix

/-- A digit of a base in C. -/
def IsDigit (base : Nat) (c : Char) (d : Nat) : Prop :=
  d < base ∧ (c = d.digitChar ∨ c = d.digitChar.toUpper)

instance (base : Nat) (c : Char) (d : Nat) : Decidable (IsDigit base c d) :=
  inferInstanceAs (Decidable (_ ∧ _))

/-- In C, the text is an integer constant. -/
def Denotes : List Char → Nat → Bool → Prop :=
  Written fun base digits ds => digits ≠ [] ∧ List.Forall₂ (IsDigit base) digits ds

/-- The text is one of digits in any script, with single underscores between them. -/
inductive Spelled (base : Nat) : List Char → List Nat → Prop
  | last {c : Char} {d : Nat} (hc : Text.digitValue? c = some d) (hd : d < base) : Spelled base [c] [d]
  | next {c : Char} {d : Nat} {cs : List Char} {ds : List Nat} (hc : Text.digitValue? c = some d) (hd : d < base)
    (hmore : Spelled base cs ds) : Spelled base (c :: cs) (d :: ds)
  | apart {c : Char} {d : Nat} {cs : List Char} {ds : List Nat} (hc : Text.digitValue? c = some d) (hd : d < base)
    (hmore : Spelled base cs ds) : Spelled base (c :: '_' :: cs) (d :: ds)

/-- The text is one of digits, perhaps with a zero and the mark of the base in front of them, and an underscore after the mark. -/
inductive Marked (base : Nat) : List Char → List Nat → Prop
  | bare {cs : List Char} {ds : List Nat} (h : Spelled base cs ds) : Marked base cs ds
  | mark {zero m : Char} {cs : List Char} {ds : List Nat} (hzero : Text.digitValue? zero = some 0) (hm : m ∈ Text.baseMarks base)
    (h : Spelled base cs ds) : Marked base (zero :: m :: cs) ds
  | markApart {zero m : Char} {cs : List Char} {ds : List Nat} (hzero : Text.digitValue? zero = some 0) (hm : m ∈ Text.baseMarks base)
    (h : Spelled base cs ds) : Marked base (zero :: m :: '_' :: cs) ds

/-- The text is an integer constant that is converted. -/
def Accepted : List Char → Nat → Bool → Prop :=
  Written fun base digits ds => Marked base digits ds ∧ (base = 10 → ds.length ≤ Text.digitLimit)

/-- After the mark of the base comes another zero with a mark of the base. -/
def Remarked (cs : List Char) : Prop :=
  ∃ base m digits, Numeral base ('0' :: m :: digits) cs ∧ m ∈ Text.baseMarks base

/-- The text is plain: without underscores, without characters of other scripts, and without another mark of the base. -/
structure Plain (cs : List Char) : Prop where
  joined : '_' ∉ cs
  ascii : ∀ c ∈ cs, c.toNat < 128
  unmarked : ¬Remarked cs

/-- The text has not too many decimal digits. -/
def Short (cs : List Char) : Prop :=
  cs.head? = some '0' ∨ (cs.rdropWhile isSuffix).length ≤ Text.digitLimit

/-! ## Digits -/

section

variable {base : Nat} {c m : Char} {d n : Nat} {cs digits text : List Char} {ds : List Nat}

/-- A mark of a base is no digit of it. -/
theorem le_of_mem_baseMarks (hm : m ∈ Text.baseMarks base) (hd : Text.digitValue? m = some d) : base ≤ d := by
  unfold Text.baseMarks at hm
  split at hm
  · rcases List.mem_pair.mp hm with rfl | rfl <;> · cases hd; decide
  · rcases List.mem_pair.mp hm with rfl | rfl <;> · cases hd; decide
  · rcases List.mem_pair.mp hm with rfl | rfl <;> · cases hd; decide
  · nomatch hm

/-- A letter of a suffix is no digit of a base up to sixteen. -/
theorem le_of_isSuffix (hc : isSuffix c = true) (hd : Text.digitValue? c = some d) : 16 ≤ d := by
  simp only [isSuffix, Bool.or_eq_true, decide_eq_true_eq] at hc
  rcases hc with ((rfl | rfl) | rfl) | rfl <;> · cases hd; decide

/-- A letter that marks a base is no letter of a suffix. -/
theorem isSuffix_of_mem_baseMarks (hm : m ∈ Text.baseMarks base) : isSuffix m = false := by
  unfold Text.baseMarks at hm
  split at hm
  · rcases List.mem_pair.mp hm with rfl | rfl <;> decide
  · rcases List.mem_pair.mp hm with rfl | rfl <;> decide
  · rcases List.mem_pair.mp hm with rfl | rfl <;> decide
  · nomatch hm

/-- A digit has the value that C gives it. -/
theorem IsDigit.digitValue? (h : IsDigit base c d) (hbase : base ≤ 16) : Text.digitValue? c = some d := by
  obtain ⟨hd, hc⟩ := h
  have hlt : d < 16 := by omega
  rcases hc with rfl | rfl <;> interval_cases d <;> rfl

/-- The zeros of all other scripts are beyond the characters of C. -/
theorem le_of_mem_decimalZeros : ∀ first ∈ Text.decimalZeros.tail, 128 ≤ first := by
  decide

theorem head_decimalZeros : Text.decimalZeros = 0x30 :: Text.decimalZeros.tail := rfl

/-- A decimal digit among the characters of C. -/
theorem decimalValue?_of_ascii (hc : c.toNat < 128) (h : Text.decimalValue? c = some d) : d < 10 ∧ c.toNat = 0x30 + d := by
  obtain ⟨first, hfind, rfl⟩ := Option.map_eq_some_iff.mp h
  have hrange := List.find?_some hfind
  have hmem := List.mem_of_find?_eq_some hfind
  rw [head_decimalZeros] at hmem
  simp only [Bool.and_eq_true, decide_eq_true_eq] at hrange
  rcases List.mem_cons.mp hmem with rfl | hmem
  · omega
  · have hle := le_of_mem_decimalZeros first hmem
    omega

/-- A character of C with a value below sixteen is the letter or the decimal digit of this value. -/
theorem digitChar_of_digitValue? (hc : c.toNat < 128) (h : Text.digitValue? c = some d) (hd : d < 16) :
    c = d.digitChar ∨ c = d.digitChar.toUpper := by
  have hchar (code : Nat) (hcode : c.toNat = code) : c = Char.ofNat code := by rw [← hcode, Char.ofNat_toNat]
  unfold Text.digitValue? at h
  split at h
  · obtain hvalue : c.toNat - 0x57 = d := Option.some.inj h
    have hle : 10 ≤ d := by omega
    rw [hchar (0x57 + d) (by omega)]
    interval_cases d <;> exact .inl rfl
  · split at h
    · obtain hvalue : c.toNat - 0x37 = d := Option.some.inj h
      have hle : 10 ≤ d := by omega
      rw [hchar (0x37 + d) (by omega)]
      interval_cases d <;> exact .inr rfl
    · obtain ⟨hless, hvalue⟩ := decimalValue?_of_ascii hc h
      rw [hchar _ hvalue]
      interval_cases d <;> exact .inl rfl

/-- Among the characters of C, only its digits have values. -/
theorem isDigit_of_digitValue? (hc : c.toNat < 128) (h : Text.digitValue? c = some d) (hd : d < base) (hbase : base ≤ 16) :
    IsDigit base c d :=
  ⟨hd, digitChar_of_digitValue? hc h (by omega)⟩

/-- A character is a digit of a base when its value is below the base. -/
theorem filter_digitValue?_eq_some_iff :
    (Text.digitValue? c).filter (· < base) = some d ↔ Text.digitValue? c = some d ∧ d < base := by
  rw [Option.filter_eq_some_iff, decide_eq_true_eq]

/-- Digits do not begin with an underscore. -/
theorem Spelled.head_ne (h : Spelled base cs ds) (more : List Char) : cs ≠ '_' :: more := by
  rintro rfl
  cases h <;> contradiction

/-- Reading digits accepts the texts that are spelled in digits, and gives their values. -/
theorem digits?_eq_some_iff : Text.digits? base cs = some ds ↔ Spelled base cs ds := by
  constructor
  · intro h
    fun_induction Text.digits? base cs generalizing ds with
    | case1 => cases h
    | case2 => cases h
    | case3 c d hd =>
      cases h
      obtain ⟨hc, hlt⟩ := filter_digitValue?_eq_some_iff.mp hd
      exact .last hc hlt
    | case4 c d hd more ih =>
      obtain ⟨ds, hds, rfl⟩ := Option.map_eq_some_iff.mp h
      obtain ⟨hc, hlt⟩ := filter_digitValue?_eq_some_iff.mp hd
      exact .apart hc hlt (ih hds)
    | case5 c d hd more _ _ ih =>
      obtain ⟨ds, hds, rfl⟩ := Option.map_eq_some_iff.mp h
      obtain ⟨hc, hlt⟩ := filter_digitValue?_eq_some_iff.mp hd
      exact .next hc hlt (ih hds)
  · intro h
    induction h with
    | last hc hd => rw [Text.digits?, filter_digitValue?_eq_some_iff.mpr ⟨hc, hd⟩]
    | apart hc hd _ ih =>
      rw [Text.digits?, filter_digitValue?_eq_some_iff.mpr ⟨hc, hd⟩]
      simp [ih]
    | @next c d cs ds hc hd hmore ih =>
      rw [Text.digits?, filter_digitValue?_eq_some_iff.mpr ⟨hc, hd⟩]
      cases cs with
      | nil => cases hmore
      | cons e cs =>
        dsimp only
        split
        · contradiction
        · exact absurd ‹_› (hmore.head_ne _)
        · rw [ih, Option.map_some]

/-! ## Marks -/

/-- A mark of the base is not among its digits. -/
theorem Spelled.notMem_baseMarks (h : Spelled base (c :: m :: cs) ds) : m ∉ Text.baseMarks base := by
  intro hm
  cases h with
  | next _ _ hmore =>
    cases hmore with
    | last hd hlt | next hd hlt | apart hd hlt => exact absurd (le_of_mem_baseMarks hm hd) (by omega)
  | apart =>
    unfold Text.baseMarks at hm
    split at hm <;> simp at hm

/-- Without the mark of its base, a text is spelled in digits when it is marked or has no mark. -/
theorem spelled_dropMark_iff : Spelled base (Text.dropMark base cs) ds ↔ Marked base cs ds := by
  constructor
  · intro h
    unfold Text.dropMark at h
    split at h
    · split at h
      · rename_i hmark
        split at h
        · exact .markApart hmark.1 hmark.2 h
        · exact .mark hmark.1 hmark.2 h
      · exact .bare h
    · exact .bare h
  · intro h
    cases h with
    | bare h =>
      unfold Text.dropMark
      split
      · rw [if_neg fun hmark => h.notMem_baseMarks hmark.2]
        exact h
      · exact h
    | mark hzero hm h =>
      rw [Text.dropMark, if_pos ⟨hzero, hm⟩]
      · exact h
      · exact h.head_ne
    | markApart hzero hm h =>
      rw [Text.dropMark, if_pos ⟨hzero, hm⟩]
      exact h

/-- The number of some digits is the one that the library has for them, with the least digit first. -/
theorem ofDigits_eq : Text.ofDigits base ds = Nat.ofDigits base ds.reverse := by
  rw [Text.ofDigits, Nat.ofDigits_eq_foldr, List.foldr_reverse]
  congr 1
  funext n d
  simp [Nat.mul_comm, Nat.add_comm]

/-- Reading a numeral accepts digits with or without the mark of their base, and only so many of them when the base is ten. -/
theorem natural?_eq_some_iff : Text.natural? base cs = some n ↔
    ∃ ds, Marked base cs ds ∧ (Text.baseMarks base = [] → ds.length ≤ Text.digitLimit) ∧ n = Nat.ofDigits base ds.reverse := by
  simp only [← spelled_dropMark_iff, ← digits?_eq_some_iff, ← ofDigits_eq]
  unfold Text.natural?
  cases Text.digits? base (Text.dropMark base cs) with
  | none => simp
  | some ds =>
    by_cases hlong : Text.baseMarks base = [] ∧ Text.digitLimit < ds.length
    · simp [hlong.1, hlong.2]
    · have hlimit : Text.baseMarks base = [] → ds.length ≤ Text.digitLimit := fun hnil => Nat.not_lt.mp fun hlt => hlong ⟨hnil, hlt⟩
      simp only [if_neg hlong, Option.some.injEq, exists_eq_left', and_iff_right hlimit]
      exact eq_comm

/-! ## Bases -/

/-- A text begins in the way of one base only. -/
theorem Numeral.unique {base' : Nat} {digits' : List Char} (h : Numeral base digits text) (h' : Numeral base' digits' text) :
    base' = base ∧ digits' = digits := by
  cases h <;> cases h' <;> simp_all <;> grind

/-- Of the bases that a text can begin with, ten alone has no mark. -/
theorem Numeral.baseMarks_eq_nil_iff (h : Numeral base digits text) : Text.baseMarks base = [] ↔ base = 10 := by
  cases h <;> simp [Text.baseMarks]

/-- No text begins with the mark of a base above sixteen. -/
theorem Numeral.le (h : Numeral base digits text) : base ≤ 16 := by
  cases h <;> decide

/-- The digits come last in the text. -/
theorem Numeral.suffix (h : Numeral base digits text) : digits <:+ text := by
  cases h with
  | hexadecimal | binary => exact (List.suffix_cons _ _).trans (List.suffix_cons _ _)
  | octal | decimal => exact List.suffix_rfl

/-- What follows a text has no part in its base when it begins with no mark. -/
theorem Numeral.append {more : List Char} (h : Numeral base digits text) (hmore : ∀ m ∈ more.head?, m ∉ ['x', 'X', 'b', 'B']) :
    Numeral base (digits ++ more) (text ++ more) := by
  cases h with
  | hexadecimal hm => exact .hexadecimal hm
  | binary hm => exact .binary hm
  | decimal hc => exact .decimal hc
  | @octal digits hdigits =>
    refine .octal fun m hm => ?_
    cases digits with
    | nil => exact hmore m hm
    | cons => exact hdigits m hm

/-- A text of one zero is a decimal numeral for the conversion, which makes no difference. -/
theorem base_of_numeral (h : Numeral base digits text) (hzero : text ≠ ['0']) : Constant.base text = (base, digits) := by
  cases h with
  | hexadecimal hm => simp [Constant.base, hm]
  | binary hm => rcases hm with rfl | rfl <;> simp [Constant.base]
  | decimal hc => simp [Constant.base, hc]
  | @octal digits hdigits =>
    cases digits with
    | nil => exact absurd rfl hzero
    | cons m digits =>
      have hm := hdigits m rfl
      simp only [List.mem_cons, List.not_mem_nil, or_false, not_or] at hm
      simp [Constant.base, hm]

/-- A text that is not empty begins in the way of some base. -/
theorem exists_numeral (hne : text ≠ []) : ∃ base digits, Numeral base digits text := by
  match text, hne with
  | c :: rest, _ =>
    by_cases hc : c = '0'
    · subst hc
      by_cases hmark : ∀ m ∈ rest.head?, m ∉ ['x', 'X', 'b', 'B']
      · exact ⟨_, _, .octal hmark⟩
      · simp only [not_forall, not_not] at hmark
        obtain ⟨m, hhead, hm⟩ := hmark
        obtain ⟨digits, rfl⟩ := List.head?_eq_some_iff.mp hhead
        simp only [List.mem_cons, List.not_mem_nil, or_false] at hm
        rcases hm with rfl | rfl | rfl | rfl
        · exact ⟨_, _, .hexadecimal (.inl rfl)⟩
        · exact ⟨_, _, .hexadecimal (.inr rfl)⟩
        · exact ⟨_, _, .binary (.inl rfl)⟩
        · exact ⟨_, _, .binary (.inr rfl)⟩
    · exact ⟨_, _, .decimal hc⟩

/-- Reading a numeral in the base that it begins with accepts the digits of that base, which may have a further mark. -/
theorem natural?_base_eq_some_iff : Text.natural? (Constant.base text).1 (Constant.base text).2 = some n ↔
    ∃ base digits ds, Numeral base digits text ∧ (Marked base digits ds ∧ (base = 10 → ds.length ≤ Text.digitLimit)) ∧
      n = Nat.ofDigits base ds.reverse := by
  by_cases hzero : text = ['0']
  · subst hzero
    have hoctal : Numeral 8 ['0'] ['0'] := .octal nofun
    have hvalue : Text.natural? (Constant.base ['0']).1 (Constant.base ['0']).2 = some 0 := rfl
    rw [hvalue, Option.some.injEq]
    constructor
    · rintro rfl
      exact ⟨8, ['0'], [0], hoctal, ⟨.bare (.last rfl (by decide)), by decide⟩, rfl⟩
    · rintro ⟨base, digits, ds, hnumeral, ⟨hds, -⟩, rfl⟩
      obtain ⟨rfl, rfl⟩ := hoctal.unique hnumeral
      cases hds with
      | bare h =>
        cases h with
        | last hd =>
          cases hd
          rfl
        | next _ _ hmore => nomatch hmore
  · by_cases hne : text = []
    · subst hne
      constructor
      · nofun
      · rintro ⟨base, digits, ds, hnumeral, -⟩
        nomatch hnumeral
    · obtain ⟨base, digits, hnumeral⟩ := exists_numeral hne
      rw [base_of_numeral hnumeral hzero, natural?_eq_some_iff, hnumeral.baseMarks_eq_nil_iff]
      constructor
      · rintro ⟨ds, hds, hlimit, hn⟩
        exact ⟨base, digits, ds, hnumeral, ⟨hds, hlimit⟩, hn⟩
      · rintro ⟨base', digits', ds, hnumeral', ⟨hds, hlimit⟩, hn⟩
        obtain ⟨rfl, rfl⟩ := hnumeral.unique hnumeral'
        exact ⟨ds, hds, hlimit, hn⟩

/-! ## Suffixes -/

/-- A text that is spelled in digits ends in a digit. -/
theorem Spelled.exists_last (h : Spelled base cs ds) : ∃ before c d, cs = before ++ [c] ∧ Text.digitValue? c = some d ∧ d < base := by
  induction h with
  | @last c d hc hd => exact ⟨[], c, d, rfl, hc, hd⟩
  | @next c d _ _ _ _ _ ih =>
    obtain ⟨before, e, v, rfl, he⟩ := ih
    exact ⟨c :: before, e, v, rfl, he⟩
  | @apart c d _ _ _ _ _ ih =>
    obtain ⟨before, e, v, rfl, he⟩ := ih
    exact ⟨c :: '_' :: before, e, v, rfl, he⟩

/-- So does one with the mark of its base. -/
theorem Marked.exists_last (h : Marked base cs ds) : ∃ before c d, cs = before ++ [c] ∧ Text.digitValue? c = some d ∧ d < base := by
  cases h with
  | bare h => exact h.exists_last
  | @mark zero m _ _ _ _ h =>
    obtain ⟨before, c, d, rfl, hc⟩ := h.exists_last
    exact ⟨zero :: m :: before, c, d, rfl, hc⟩
  | @markApart zero m _ _ _ _ h =>
    obtain ⟨before, c, d, rfl, hc⟩ := h.exists_last
    exact ⟨zero :: m :: '_' :: before, c, d, rfl, hc⟩

/-- The suffix of a constant begins after its last digit. -/
theorem rdropWhile_isSuffix {suffix : List Char} (hnumeral : Numeral base digits text) (h : Marked base digits ds)
    (hsuffix : ∀ c ∈ suffix, isSuffix c = true) :
    (text ++ suffix).rdropWhile isSuffix = text ∧ (text ++ suffix).rtakeWhile isSuffix = suffix := by
  obtain ⟨before, c, d, rfl, hc, hd⟩ := h.exists_last
  obtain ⟨mark, rfl⟩ := hnumeral.suffix
  have hlast : isSuffix c = false := by
    rw [Bool.eq_false_iff]
    intro hsuffix
    have := le_of_isSuffix hsuffix hc
    have := hnumeral.le
    omega
  have hdrop : (mark ++ (before ++ [c]) ++ suffix).rdropWhile isSuffix = mark ++ (before ++ [c]) := by
    rw [List.rdropWhile, List.reverse_append, List.dropWhile_append_of_pos (by simpa using hsuffix), ← List.rdropWhile, ← List.append_assoc,
      List.rdropWhile_concat_neg _ _ _ (by simp [hlast])]
  refine ⟨hdrop, ?_⟩
  have hsplit : (mark ++ (before ++ [c]) ++ suffix).rdropWhile isSuffix ++ _ = _ := List.rdropWhile_append_rtakeWhile
  rw [hdrop] at hsplit
  exact List.append_cancel_left hsplit

/-- A constant is converted just when the digits before its suffix are. -/
theorem accepted_iff {n : Nat} {unsigned : Bool} : Accepted cs n unsigned ↔
    Text.natural? (Constant.base (cs.rdropWhile isSuffix)).1 (Constant.base (cs.rdropWhile isSuffix)).2 = some n ∧
      unsigned = (cs.rtakeWhile isSuffix).any isUnsignedSuffix := by
  rw [natural?_base_eq_some_iff]
  constructor
  · rintro ⟨base, digits, ds, text, suffix, rfl, hnumeral, hds, hsuffix, hn, hunsigned⟩
    obtain ⟨hdrop, htake⟩ := rdropWhile_isSuffix hnumeral hds.1 hsuffix
    rw [hdrop, htake]
    exact ⟨⟨base, digits, ds, hnumeral, hds, hn⟩, hunsigned⟩
  · rintro ⟨⟨base, digits, ds, hnumeral, hds, hn⟩, hunsigned⟩
    exact ⟨base, digits, ds, _, _, List.rdropWhile_append_rtakeWhile.symm, hnumeral, hds, fun _ => List.mem_rtakeWhile_imp, hn, hunsigned⟩

/-! ## Conversion -/

/-- What a text is read as is the end of it. -/
theorem base_suffix (cs : List Char) : (Constant.base cs).2 <:+ cs := by
  unfold Constant.base
  split
  · split_ifs
    · exact (List.suffix_cons _ _).trans (List.suffix_cons _ _)
    · exact (List.suffix_cons _ _).trans (List.suffix_cons _ _)
    · exact List.suffix_rfl
  · exact List.suffix_rfl

/-- The conversion of a number takes it as unsigned when it has to be or does not fit into a signed word. -/
theorem ofNatural_eq (n : Nat) (unsigned : Bool) :
    (if unsigned = true ∨ Word.maxSigned < Int.ofNat n then .ok (Word.ofIntUnsigned n)
      else match Word.ofInt? n with
        | some w => .ok w
        | none => .error .outOfRange : Except EvalError Word) = .ok (Word.ofNatural n unsigned) := by
  have hmax : Word.maxSigned < Int.ofNat n ↔ 2 ^ 63 - 1 < n := by
    unfold Word.maxSigned
    norm_num
  unfold Word.ofNatural
  split
  · rename_i h
    rw [hmax] at h
    have hunsigned : (unsigned || decide (2 ^ 63 - 1 < n)) = true := by simpa using h
    rw [hunsigned]
    rfl
  · rename_i h
    rw [not_or, hmax] at h
    have hunsigned : (unsigned || decide (2 ^ 63 - 1 < n)) = false := by simpa using h
    have hfits : Word.minSigned ≤ (n : Int) ∧ (n : Int) ≤ Word.maxSigned := by
      unfold Word.minSigned Word.maxSigned
      omega
    rw [hunsigned, Word.ofInt?, if_pos hfits]
    rfl

/-- Without blanks and signs a constant is converted to the number of its digits, or it is refused. -/
theorem integer_eq {text : String} (hblank : ∀ c ∈ text.toList, Text.isBlank c = false)
    (hsign : ∀ c ∈ (Constant.base (text.toList.rdropWhile isSuffix)).2.head?, c ≠ '-' ∧ c ≠ '+') :
    integer text =
      match Text.natural? (Constant.base (text.toList.rdropWhile isSuffix)).1 (Constant.base (text.toList.rdropWhile isSuffix)).2 with
      | none => .error (.parse (.notInteger text))
      | some n => .ok (Word.ofNatural n ((text.toList.rtakeWhile isSuffix).any isUnsignedSuffix)) := by
  have hdigits : ∀ c ∈ (Constant.base (text.toList.rdropWhile isSuffix)).2, Text.isBlank c = false := fun c hc =>
    hblank c ((List.rdropWhile_prefix _ _).subset ((base_suffix _).subset hc))
  unfold integer
  dsimp only
  rw [← List.rdropWhile, Text.integer?_eq hdigits hsign, List.rtakeWhile, List.any_reverse]
  cases Text.natural? (Constant.base (text.toList.rdropWhile isSuffix)).1 (Constant.base (text.toList.rdropWhile isSuffix)).2 with
  | none => rfl
  | some n => exact ofNatural_eq n _

/-- A constant without blanks and signs is converted to the word of its number just when it is accepted. -/
theorem integer_eq_ok_iff {text : String} (hblank : ∀ c ∈ text.toList, Text.isBlank c = false)
    (hsign : ∀ c ∈ (Constant.base (text.toList.rdropWhile isSuffix)).2.head?, c ≠ '-' ∧ c ≠ '+') {w : Word} :
    integer text = .ok w ↔ ∃ n unsigned, Accepted text.toList n unsigned ∧ w.Represents n unsigned := by
  simp only [accepted_iff, Word.represents_iff]
  rw [integer_eq hblank hsign]
  split
  · rename_i hnone
    rw [hnone]
    simp
  · rename_i n hn
    rw [hn]
    simp [eq_comm]

/-! ## The constants of C -/

/-- The suffix of a constant begins with no mark of a base. -/
theorem notMark_of_isSuffix {suffix : List Char} (h : ∀ c ∈ suffix, isSuffix c = true) :
    ∀ m ∈ suffix.head?, m ∉ ['x', 'X', 'b', 'B'] := by
  intro m hm hmark
  have hsuffix := h m (List.mem_of_mem_head? hm)
  simp only [List.mem_cons, List.not_mem_nil, or_false] at hmark
  rcases hmark with rfl | rfl | rfl | rfl <;> exact absurd hsuffix (by decide)

/-- Digits of C are digits. -/
theorem spelled_of_isDigit (hbase : base ≤ 16) (hne : digits ≠ []) (h : List.Forall₂ (IsDigit base) digits ds) :
    Spelled base digits ds := by
  induction h with
  | nil => exact absurd rfl hne
  | @cons c d cs ds hc hrest ih =>
    cases hrest with
    | nil => exact .last (hc.digitValue? hbase) hc.1
    | cons => exact .next (hc.digitValue? hbase) hc.1 (ih nofun)

/-- Without underscores and other scripts, digits are digits of C. -/
theorem isDigit_of_spelled (hbase : base ≤ 16) (hjoined : '_' ∉ digits) (hascii : ∀ c ∈ digits, c.toNat < 128)
    (h : Spelled base digits ds) : digits ≠ [] ∧ List.Forall₂ (IsDigit base) digits ds := by
  induction h with
  | last hc hd => exact ⟨List.cons_ne_nil _ _, .cons (isDigit_of_digitValue? (hascii _ List.mem_cons_self) hc hd hbase) .nil⟩
  | next hc hd _ ih =>
    have hrest := ih (fun h => hjoined (List.mem_cons_of_mem _ h)) fun c hc => hascii c (List.mem_cons_of_mem _ hc)
    exact ⟨List.cons_ne_nil _ _, .cons (isDigit_of_digitValue? (hascii _ List.mem_cons_self) hc hd hbase) hrest.2⟩
  | apart => exact absurd (List.mem_cons_of_mem _ List.mem_cons_self) hjoined

/-- Each character of a text of digits is a digit. -/
theorem exists_isDigit (h : List.Forall₂ (IsDigit base) digits ds) : ∀ c ∈ digits, ∃ d, IsDigit base c d := by
  induction h with
  | nil => nofun
  | cons hc _ ih => exact List.forall_mem_cons.mpr ⟨⟨_, hc⟩, ih⟩

theorem isDigit_zero_iff : IsDigit 1 c 0 ↔ c = '0' := by
  simp [IsDigit, Nat.digitChar, Char.toUpper]

/-- A digit, a mark and a letter of a suffix are no underscore and of no other script. -/
theorem ascii_of_isDigit (hbase : base ≤ 16) (h : IsDigit base c d) : c ≠ '_' ∧ c.toNat < 128 := by
  obtain ⟨hd, hc⟩ := h
  have hlt : d < 16 := by omega
  rcases hc with rfl | rfl <;> interval_cases d <;> decide

/-- A letter of a suffix is neither an underscore nor a letter of another script. -/
theorem ascii_of_isSuffix (h : isSuffix c = true) : c ≠ '_' ∧ c.toNat < 128 := by
  simp only [isSuffix, Bool.or_eq_true, decide_eq_true_eq] at h
  rcases h with ((rfl | rfl) | rfl) | rfl <;> decide

/-- A mark of a base is neither an underscore nor a letter of another script. -/
theorem ascii_of_mark (h : c ∈ ['0', 'x', 'X', 'b', 'B']) : c ≠ '_' ∧ c.toNat < 128 := by
  simp only [List.mem_cons, List.not_mem_nil, or_false] at h
  rcases h with rfl | rfl | rfl | rfl | rfl <;> decide

/-- The characters of a constant are its digits and those of the mark. -/
theorem Numeral.mem (h : Numeral base digits text) (hc : c ∈ text) : c ∈ digits ∨ c ∈ ['0', 'x', 'X', 'b', 'B'] := by
  cases h with
  | hexadecimal hm | binary hm =>
    rcases List.mem_cons.mp hc with rfl | hc
    · exact .inr (by decide)
    · rcases List.mem_cons.mp hc with rfl | hc
      · exact .inr (by rcases hm with rfl | rfl <;> decide)
      · exact .inl hc
  | octal | decimal => exact .inl hc

/-- What comes after the mark of a constant of C has no other mark of the base in it. -/
theorem notMem_of_mem_baseMarks {suffix : List Char} (hbase : base ≤ 16) (h : List.Forall₂ (IsDigit base) digits ds)
    (hsuffix : ∀ c ∈ suffix, isSuffix c = true) (hm : m ∈ Text.baseMarks base) : m ∉ digits ++ suffix := by
  intro hmem
  rcases List.mem_append.mp hmem with hmem | hmem
  · obtain ⟨d, hd⟩ := exists_isDigit h m hmem
    exact absurd (le_of_mem_baseMarks hm (hd.digitValue? hbase)) (Nat.not_le.mpr hd.1)
  · exact absurd (hsuffix m hmem) (by simp [isSuffix_of_mem_baseMarks hm])

/-- Every constant of C is plain. -/
theorem plain_of_denotes {unsigned : Bool} (h : Denotes cs n unsigned) : Plain cs := by
  obtain ⟨base, digits, ds, text, suffix, rfl, hnumeral, ⟨hne, hds⟩, hsuffix, -⟩ := h
  have hchar : ∀ c ∈ text ++ suffix, c ≠ '_' ∧ c.toNat < 128 := by
    intro c hc
    rcases List.mem_append.mp hc with hc | hc
    · rcases hnumeral.mem hc with hc | hc
      · obtain ⟨d, hd⟩ := exists_isDigit hds c hc
        exact ascii_of_isDigit hnumeral.le hd
      · exact ascii_of_mark hc
    · exact ascii_of_isSuffix (hsuffix c hc)
  refine ⟨fun hmem => (hchar _ hmem).1 rfl, fun c hc => (hchar c hc).2, ?_⟩
  rintro ⟨base', m, digits', hnumeral', hm⟩
  obtain ⟨rfl, hdigits⟩ := (hnumeral.append (notMark_of_isSuffix hsuffix)).unique hnumeral'
  refine notMem_of_mem_baseMarks hnumeral.le hds hsuffix hm ?_
  rw [← hdigits]
  exact List.mem_cons_of_mem _ List.mem_cons_self

/-- Without underscores there are as many digits as characters. -/
theorem Spelled.length_eq (h : Spelled base cs ds) (hjoined : '_' ∉ cs) : ds.length = cs.length := by
  induction h with
  | last => rfl
  | next _ _ _ ih => rw [List.length_cons, List.length_cons, ih fun h => hjoined (List.mem_cons_of_mem _ h)]
  | apart => exact absurd (List.mem_cons_of_mem _ List.mem_cons_self) hjoined

/-- Where there are no underscores, the digits of a decimal constant are limited when its text is short. -/
theorem short_iff {suffix : List Char} (hnumeral : Numeral base digits text) (h : Marked base digits ds) (hjoined : '_' ∉ digits)
    (hsuffix : ∀ c ∈ suffix, isSuffix c = true) : Short (text ++ suffix) ↔ (base = 10 → ds.length ≤ Text.digitLimit) := by
  unfold Short
  rw [(rdropWhile_isSuffix hnumeral h hsuffix).1]
  cases hnumeral with
  | hexadecimal | binary | octal => simp
  | @decimal c digits hc =>
    have hspelled : Spelled 10 (c :: digits) ds := by
      cases h with
      | bare h => exact h
      | mark _ hm | markApart _ hm => nomatch hm
    simp [hc, hspelled.length_eq hjoined]

/-- A plain constant is accepted just when it is one of C that has not too many digits. -/
theorem accepted_iff_denotes {unsigned : Bool} (hplain : Plain cs) :
    Accepted cs n unsigned ↔ Short cs ∧ Denotes cs n unsigned := by
  constructor
  · rintro ⟨base, digits, ds, text, suffix, rfl, hnumeral, ⟨hmarked, hlimit⟩, hsuffix, hvalue⟩
    have hmem {c : Char} (hc : c ∈ digits) : c ∈ text ++ suffix := List.mem_append_left _ (hnumeral.suffix.subset hc)
    have hjoined : '_' ∉ digits := fun hc => hplain.joined (hmem hc)
    have hascii : ∀ c ∈ digits, c.toNat < 128 := fun c hc => hplain.ascii c (hmem hc)
    refine ⟨(short_iff hnumeral hmarked hjoined hsuffix).mpr hlimit, base, digits, ds, text, suffix, rfl, hnumeral, ?_, hsuffix, hvalue⟩
    cases hmarked with
    | bare h => exact isDigit_of_spelled hnumeral.le hjoined hascii h
    | mark hzero hm h =>
      have hfirst := isDigit_zero_iff.mp (isDigit_of_digitValue? (hascii _ List.mem_cons_self) hzero (by decide) (by decide))
      subst hfirst
      exact absurd ⟨base, _, _, hnumeral.append (notMark_of_isSuffix hsuffix), hm⟩ hplain.unmarked
    | markApart => exact absurd (by simp) hjoined
  · rintro ⟨hshort, base, digits, ds, text, suffix, rfl, hnumeral, ⟨hne, hds⟩, hsuffix, hvalue⟩
    have hmarked : Marked base digits ds := .bare (spelled_of_isDigit hnumeral.le hne hds)
    have hjoined : '_' ∉ digits := fun hc => hplain.joined (List.mem_append_left _ (hnumeral.suffix.subset hc))
    exact ⟨base, digits, ds, text, suffix, rfl, hnumeral, ⟨hmarked, (short_iff hnumeral hmarked hjoined hsuffix).mp hshort⟩, hsuffix, hvalue⟩

end

/-! ## Lexed numbers -/

/-- The text of a lexed number has no blanks, and its digits do not begin with a sign. -/
theorem plain_of_lexed {t : Token} (ht : t.Lexed) (hkind : t.kind = .numberLiteral) :
    (∀ c ∈ t.value.toList, Text.isBlank c = false) ∧
    ∀ c ∈ (Constant.base (t.value.toList.rdropWhile isSuffix)).2.head?, c ≠ '-' ∧ c ≠ '+' := by
  obtain ⟨cs, length, hnumber, hvalue⟩ := Token.number_of_lexed ht hkind
  rw [hvalue]
  refine ⟨(Lexer.number_in_text hnumber).2.2, fun c hc => ?_⟩
  exact (Lexer.plain_of_part (Lexer.part_of_head?_digits hnumber (List.rdropWhile_prefix _ _) c hc)).2

/-- A lexed number is converted just when it is accepted, to the word of its number, and refused as no integer constant otherwise. If its text is
plain, it is accepted just when it is an integer constant of C that has not too many digits, and every constant of C is plain. -/
theorem integer_of_lexed_number {t : Token} (ht : t.Lexed) (hkind : t.kind = .numberLiteral) :
    (∀ w, integer t.value = .ok w ↔ ∃ n unsigned, Accepted t.value.toList n unsigned ∧ w.Represents n unsigned) ∧
    (∀ cause, integer t.value = .error cause → cause = .parse (.notInteger t.value)) ∧
    (Plain t.value.toList → ∀ w, integer t.value = .ok w ↔
      Short t.value.toList ∧ ∃ n unsigned, Denotes t.value.toList n unsigned ∧ w.Represents n unsigned) ∧
    (∀ n unsigned, Denotes t.value.toList n unsigned → Plain t.value.toList) := by
  obtain ⟨hblank, hsign⟩ := plain_of_lexed ht hkind
  refine ⟨fun w => integer_eq_ok_iff hblank hsign, fun cause h => ?_, fun hplain w => ?_, fun n unsigned h => plain_of_denotes h⟩
  · rw [integer_eq hblank hsign] at h
    split at h
    · cases h
      rfl
    · cases h
  · simp only [integer_eq_ok_iff hblank hsign, accepted_iff_denotes hplain, and_assoc, exists_and_left]

/-- A number with a mark, digits of both cases and a suffix. -/
def marked : Token :=
  Expression.number "0x1Fu"

/-- A text that is lexed as one number makes a lexed token. -/
theorem lexed_number {digits : String} (h : (Token.ofText digits).map Token.content = [(digits, .numberLiteral)]) :
    (Expression.number digits).Lexed :=
  ⟨digits, by rw [h]; exact List.mem_singleton_self _⟩

/-- The token is an integer constant of C and is converted to the number that it denotes there. -/
theorem integer_of_lexed_number_marked :
    marked.Lexed ∧ marked.kind = .numberLiteral ∧ Denotes marked.value.toList 31 true ∧
    ∃ w, integer marked.value = .ok w ∧ w.Represents 31 true := by
  have hlexed : marked.Lexed := lexed_number (by cbv)
  have htext : marked.value.toList = ['0', 'x', '1', 'F', 'u'] := by rfl
  have hdigits : List.Forall₂ (IsDigit 16) ['1', 'F'] [1, 15] := .cons (by decide) (.cons (by decide) .nil)
  have hdenotes : Denotes marked.value.toList 31 true := by
    rw [htext]
    exact ⟨16, ['1', 'F'], [1, 15], ['0', 'x', '1', 'F'], ['u'], rfl, .hexadecimal (.inl rfl), ⟨List.cons_ne_nil _ _, hdigits⟩,
      by simp [isSuffix], by simp [Nat.ofDigits], rfl⟩
  have hshort : Short marked.value.toList := by
    rw [htext]
    exact .inl rfl
  obtain ⟨-, -, hiff, hplain⟩ := integer_of_lexed_number hlexed rfl
  have hrepresents := Word.represents_ofNatural 31 true
  exact ⟨hlexed, rfl, hdenotes, _, (hiff (hplain _ _ hdenotes) _).mpr ⟨hshort, _, _, hdenotes, hrepresents⟩, hrepresents⟩

/-- A lexed number that is converted, although it is no integer constant of C. -/
structure Stray (text : String) : Prop where
  lexed : (Expression.number text).Lexed
  converted : ∃ w, integer text = .ok w
  not_denotes : ∀ n unsigned, ¬Denotes text.toList n unsigned

/-- A lexed number whose digits have a number is converted, but it is no integer constant of C if it is not plain. -/
theorem stray_of_not_plain {text : String} (cs : List Char) (n : Nat) (htext : text.toList = cs)
    (hlexed : (Expression.number text).Lexed)
    (hvalue : Text.natural? (Constant.base (cs.rdropWhile isSuffix)).1 (Constant.base (cs.rdropWhile isSuffix)).2 = some n)
    (hplain : ¬Plain cs) : Stray text := by
  obtain ⟨hblank, hsign⟩ := plain_of_lexed hlexed rfl
  subst htext
  have hinteger : integer text = _ := integer_eq hblank hsign
  rw [hvalue] at hinteger
  exact ⟨hlexed, ⟨_, hinteger⟩, fun n unsigned h => hplain (plain_of_denotes h)⟩

/-- Numbers with an underscore, with the mark of octal digits, with a mark twice or with a digit of another script are no integer constants of C,
and they are converted. -/
theorem converted_not_denotes : Stray "1_000" ∧ Stray "0o17" ∧ Stray "0x0x10" ∧ Stray "0b0b1" ∧ Stray "١" := by
  refine ⟨?_, ?_, ?_, ?_, ?_⟩
  · refine stray_of_not_plain ['1', '_', '0', '0', '0'] 1000 rfl (lexed_number (by cbv)) (by decide) fun h => ?_
    exact absurd (by decide) h.joined
  · refine stray_of_not_plain ['0', 'o', '1', '7'] 15 rfl (lexed_number (by cbv)) (by decide) fun h => ?_
    exact h.unmarked ⟨8, 'o', ['1', '7'], .octal (by simp), by decide⟩
  · refine stray_of_not_plain ['0', 'x', '0', 'x', '1', '0'] 16 rfl (lexed_number (by cbv)) (by decide) fun h => ?_
    exact h.unmarked ⟨16, 'x', _, .hexadecimal (.inl rfl), by decide⟩
  · refine stray_of_not_plain ['0', 'b', '0', 'b', '1'] 1 rfl (lexed_number (by cbv)) (by decide) fun h => ?_
    exact h.unmarked ⟨2, 'b', _, .binary (.inl rfl), by decide⟩
  · refine stray_of_not_plain ['١'] 1 rfl (lexed_number (by cbv)) (by decide) fun h => ?_
    exact absurd (h.ascii '١' (by decide)) (by decide)

end Constant

end Prepass
