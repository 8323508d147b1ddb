import Mathlib
import Prepass.Proofs.Expression.Exactness

/-!
# Every operand counts

An expression is read and evaluated at once, so the logical and the conditional operators evaluate all of their operands. Between operands in
parentheses they come to a word just when every operand does: the conjunction and the disjunction to a truth value, the conditional to the
word of the operand that is chosen (`evaluates_operands`). An operand with convertible constants has a word unless it divides by
zero, and then the whole has none either, whether or not the value of that operand could matter (`divisor_zero_unchosen`).
-/

namespace Prepass

namespace Expression

/-- The tokens are one whole expression, and this is its word. -/
def Evaluates (ts : List Token) (w : Word) : Prop :=
  read 0 ts = some (w, [])

/-- The tokens `ts` are those of `inner` in parentheses. -/
def Enclosed (inner ts : List Token) : Prop :=
  ∃ o c, isPunctuator "(" o = true ∧ isPunctuator ")" c = true ∧ ts = o :: (inner ++ [c])

section

variable {ts inner : List Token} {e : Tree}

/-- What the grammar derives evaluates to the value of its tree. -/
theorem Derives.evaluates_iff (h : Derives .conditional ts e) {w : Word} : Evaluates ts w ↔ e.value? = some w := by
  have hread := h.read_eq (Nat.zero_le _) (stops_nil _) apart_nil
  rw [List.append_nil, bind_readOn_of_stops (stops_nil 0)] at hread
  rw [Evaluates, hread]
  cases e.value? <;> simp

/-- With convertible constants only a division by zero keeps an expression from having a word. -/
theorem Derives.exists_evaluates_iff (h : Derives .conditional ts e) (hconvertible : e.Convertible) :
    (∃ w, Evaluates ts w) ↔ e.DivisorsNonzero := by
  simp only [h.evaluates_iff, e.exists_value?_iff, hconvertible, true_and]

/-- An expression in parentheses is an operand of every operator. -/
theorem Derives.enclosed (h : Derives .conditional inner e) (hts : Enclosed inner ts) (s : Stratum) : Derives s ts e := by
  obtain ⟨o, c, ho, hc, rfl⟩ := hts
  exact (Derives.group ho h hc).loosen (by cases s <;> decide)

end

section

variable {as bs ds as' bs' ds' : List Token} {a b d : Tree}

/-- A binary operator between expressions in parentheses evaluates both of them. -/
theorem evaluates_binary (ha : Derives .conditional as a) (hb : Derives .conditional bs b) (has : Enclosed as as') (hbs : Enclosed bs bs')
    {t : Token} {op : BinaryOp} (ht : binaryOp? t = some op) {w : Word} :
    Evaluates (as' ++ t :: bs') w ↔ ∃ u v, Evaluates as u ∧ Evaluates bs v ∧ op.result? u v = some w := by
  obtain ⟨s, hop⟩ := Stratum.exists_mem_operators op
  have hwhole : Derives .conditional (as' ++ t :: bs') (.binary op a b) :=
    (Derives.binary hop (ha.enclosed has s) ht (hb.enclosed hbs s.tighter)).loosen s.one_le_level
  rw [hwhole.evaluates_iff]
  simp only [ha.evaluates_iff, hb.evaluates_iff, Tree.value?, Option.bind_eq_some_iff]
  constructor
  · rintro ⟨u, hu, v, hv, hw⟩
    exact ⟨u, v, hu, hv, hw⟩
  · rintro ⟨u, v, hu, hv, hw⟩
    exact ⟨u, hu, v, hv, hw⟩

/-- A conditional operator between expressions in parentheses evaluates all three of them. -/
theorem evaluates_conditional (ha : Derives .conditional as a) (hb : Derives .conditional bs b) (hd : Derives .conditional ds d)
    (has : Enclosed as as') (hbs : Enclosed bs bs') (hds : Enclosed ds ds') {question colon : Token}
    (hquestion : isPunctuator "?" question = true) (hcolon : isPunctuator ":" colon = true) {w : Word} :
    Evaluates (as' ++ question :: (bs' ++ colon :: ds')) w ↔
      ∃ u v x, Evaluates as u ∧ Evaluates bs v ∧ Evaluates ds x ∧ (if u.truth then v else x) = w := by
  have hwhole : Derives .conditional (as' ++ question :: (bs' ++ colon :: ds')) (.conditional a b d) :=
    .conditional (ha.enclosed has _) hquestion (hb.enclosed hbs _) hcolon (hd.enclosed hds _)
  rw [hwhole.evaluates_iff]
  simp only [ha.evaluates_iff, hb.evaluates_iff, hd.evaluates_iff, Tree.value?, Option.bind_eq_some_iff, Option.some.injEq]
  constructor
  · rintro ⟨u, hu, v, hv, x, hx, hw⟩
    exact ⟨u, v, x, hu, hv, hx, hw⟩
  · rintro ⟨u, v, x, hu, hv, hx, hw⟩
    exact ⟨u, hu, v, hv, x, hx, hw⟩

/-- Between expressions in parentheses, whose constants are convertible, a conjunction comes to zero when the first is zero and the second has
a word, a disjunction to one when the first is not zero and the second has a word, and a conditional to the word of the operand that
its condition chooses when the other one has a word, too. Without a word for each operand there is none for the whole, and an operand has one
unless it divides by zero. -/
theorem evaluates_operands (ha : Derives .conditional as a) (hb : Derives .conditional bs b) (hd : Derives .conditional ds d)
    (hconvertible : a.Convertible ∧ b.Convertible ∧ d.Convertible) (has : Enclosed as as') (hbs : Enclosed bs bs') (hds : Enclosed ds ds')
    {and or question colon : Token} (hand : isPunctuator "&&" and = true) (hor : isPunctuator "||" or = true)
    (hquestion : isPunctuator "?" question = true) (hcolon : isPunctuator ":" colon = true) :
    (∀ w, Evaluates (as' ++ and :: bs') w ↔ ∃ u v, Evaluates as u ∧ Evaluates bs v ∧ .ofBool (u.truth && v.truth) = w) ∧
    (∀ w, Evaluates (as' ++ or :: bs') w ↔ ∃ u v, Evaluates as u ∧ Evaluates bs v ∧ .ofBool (u.truth || v.truth) = w) ∧
    (∀ w, Evaluates (as' ++ question :: (bs' ++ colon :: ds')) w ↔
      ∃ u v x, Evaluates as u ∧ Evaluates bs v ∧ Evaluates ds x ∧ (if u.truth then v else x) = w) ∧
    ((∃ u, Evaluates as u) ↔ a.DivisorsNonzero) ∧ ((∃ v, Evaluates bs v) ↔ b.DivisorsNonzero) ∧
    ((∃ x, Evaluates ds x) ↔ d.DivisorsNonzero) := by
  obtain ⟨hca, hcb, hcd⟩ := hconvertible
  refine ⟨fun w => ?_, fun w => ?_, fun w => evaluates_conditional ha hb hd has hbs hds hquestion hcolon,
    ha.exists_evaluates_iff hca, hb.exists_evaluates_iff hcb, hd.exists_evaluates_iff hcd⟩
  · rw [evaluates_binary ha hb has hbs (binaryOp?_punctuator hand)]
    simp [BinaryOp.result?]
  · rw [evaluates_binary ha hb has hbs (binaryOp?_punctuator hor)]
    simp [BinaryOp.result?]

end

/-- A number. -/
def number (digits : String) : Token :=
  { value := digits, kind := .numberLiteral }

/-- A punctuator. -/
def mark (text : String) : Token :=
  { value := text, kind := .punctuator }

/-- The tokens in parentheses. -/
def parenthesized (ts : List Token) : List Token :=
  mark "(" :: (ts ++ [mark ")"])

/-- A mark is the punctuator of its text. -/
theorem isPunctuator_mark (text : String) : isPunctuator text (mark text) = true := by
  simp [isPunctuator, mark]

/-- Tokens in parentheses are enclosed. -/
theorem enclosed_parenthesized (ts : List Token) : Enclosed ts (parenthesized ts) :=
  ⟨mark "(", mark ")", isPunctuator_mark _, isPunctuator_mark _, rfl⟩

/-- A number is derived wherever an operand may stand. -/
theorem derives_number (digits : String) {s : Stratum} : Derives s [number digits] (.literal (number digits)) :=
  (Derives.number rfl).loosen (by cases s <;> decide)

/-- A number over a number. -/
def quotient (n m : String) : List Token :=
  [number n, mark "/", number m]

/-- A number over a number is derived as a division. -/
theorem derives_quotient (n m : String) :
    Derives .conditional (quotient n m) (.binary .div (.literal (number n)) (.literal (number m))) := by
  have hdivision : Derives .multiplicative (quotient n m) _ := .binary (by decide) (derives_number n) rfl (derives_number m)
  exact hdivision.loosen (by decide)

theorem constant_zero : (number "0").constant = .ok (.ofInt 0) := by
  cbv

theorem constant_one : (number "1").constant = .ok (.ofInt 1) := by
  cbv

theorem constant_two : (number "2").constant = .ok (.ofInt 2) := by
  cbv

/-- A number has the word of its constant. -/
theorem evaluates_number {digits : String} {w : Word} (h : (number digits).constant = .ok w) : Evaluates [number digits] w := by
  rw [(derives_number digits).evaluates_iff, Tree.value?, h]
  rfl

/-- The zero on the left decides, but the division on the right has to have a value, too. -/
theorem evaluates_operands_division :
    Evaluates (parenthesized [number "0"] ++ mark "&&" :: parenthesized (quotient "1" "2")) (.ofInt 0) ∧
    Evaluates (parenthesized [number "0"] ++ mark "||" :: parenthesized (quotient "1" "2")) (.ofInt 0) ∧
    Evaluates (parenthesized [number "0"] ++ mark "?" :: (parenthesized (quotient "1" "2") ++ mark ":" :: parenthesized [number "1"]))
      (.ofInt 1) := by
  have hquotient := derives_quotient "1" "2"
  have hconvertible : Tree.Convertible (.literal (number "0")) ∧
      Tree.Convertible (.binary .div (.literal (number "1")) (.literal (number "2"))) ∧ Tree.Convertible (.literal (number "1")) :=
    ⟨⟨_, constant_zero⟩, ⟨⟨_, constant_one⟩, ⟨_, constant_two⟩⟩, ⟨_, constant_one⟩⟩
  obtain ⟨hand, hor, hconditional, -⟩ := evaluates_operands (derives_number "0") hquotient (derives_number "1") hconvertible
    (enclosed_parenthesized _) (enclosed_parenthesized _) (enclosed_parenthesized _) (isPunctuator_mark _) (isPunctuator_mark _)
    (isPunctuator_mark _) (isPunctuator_mark _)
  have hu := evaluates_number constant_zero
  have hx := evaluates_number constant_one
  have hv : Evaluates (quotient "1" "2") (.ofInt 0) := by
    rw [hquotient.evaluates_iff, Tree.value?, Tree.value?, Tree.value?, constant_one, constant_two]
    rfl
  exact ⟨(hand _).mpr ⟨_, _, hu, hv, rfl⟩, (hor _).mpr ⟨_, _, hu, hv, rfl⟩, (hconditional _).mpr ⟨_, _, _, hu, hv, hx, rfl⟩⟩

/-- A division by zero in an operand whose value cannot matter leaves the whole without a word: after a zero before a conjunction, after a one
before a disjunction, and in the operand of a conditional that is not chosen. -/
theorem divisor_zero_unchosen :
    Tree.Convertible (.binary .div (.literal (number "1")) (.literal (number "0"))) ∧
    Derives .conditional (quotient "1" "0") (.binary .div (.literal (number "1")) (.literal (number "0"))) ∧
    Evaluates [number "0"] (.ofInt 0) ∧ Evaluates [number "1"] (.ofInt 1) ∧
    (∀ w, ¬Evaluates (parenthesized [number "0"] ++ mark "&&" :: parenthesized (quotient "1" "0")) w) ∧
    (∀ w, ¬Evaluates (parenthesized [number "1"] ++ mark "||" :: parenthesized (quotient "1" "0")) w) ∧
    (∀ w, ¬Evaluates (parenthesized [number "1"] ++
      mark "?" :: (parenthesized [number "1"] ++ mark ":" :: parenthesized (quotient "1" "0"))) w) := by
  have hquotient := derives_quotient "1" "0"
  have hnone (v : Word) : ¬Evaluates (quotient "1" "0") v := by
    rw [hquotient.evaluates_iff, Tree.value?, Tree.value?, Tree.value?, constant_zero, constant_one]
    intro h
    cases h
  refine ⟨⟨⟨_, constant_one⟩, ⟨_, constant_zero⟩⟩, hquotient, evaluates_number constant_zero, evaluates_number constant_one, ?_, ?_, ?_⟩
  · intro w h
    obtain ⟨_, v, -, hv, -⟩ := (evaluates_binary (derives_number "0") hquotient (enclosed_parenthesized _) (enclosed_parenthesized _)
      (binaryOp?_punctuator (isPunctuator_mark "&&"))).mp h
    exact hnone v hv
  · intro w h
    obtain ⟨_, v, -, hv, -⟩ := (evaluates_binary (derives_number "1") hquotient (enclosed_parenthesized _) (enclosed_parenthesized _)
      (binaryOp?_punctuator (isPunctuator_mark "||"))).mp h
    exact hnone v hv
  · intro w h
    obtain ⟨_, _, x, -, -, hx, -⟩ := (evaluates_conditional (derives_number "1") (derives_number "1") hquotient (enclosed_parenthesized _)
      (enclosed_parenthesized _) (enclosed_parenthesized _) (isPunctuator_mark "?") (isPunctuator_mark ":")).mp h
    exact hnone x hx

end Expression

end Prepass
