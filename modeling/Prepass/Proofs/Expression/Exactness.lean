import Mathlib
import Prepass.Proofs.Expression.Climbing
import Prepass.Proofs.Token.Respelling

/-!
# Expressions have the value of their tree

An expression of lexed tokens is evaluated just when the grammar derives its tokens, its constants have words and no divisor is zero, and it
is true when the value of its tree is not zero; otherwise it is refused (`evaluate_eq_tree`). A lexed number never begins with a
sign, so it always has a word that fits if it has one at all (`Token.integer_of_lexed`); a character constant may have none that
fits, and this is the only other way not to be evaluated.
-/

namespace Prepass

/-! ## Numbers are not negative -/

/-- A text that begins neither with a blank nor with a minus sign. -/
def Text.Unsigned (cs : List Char) : Prop :=
  ∀ c ∈ cs.head?, isBlank c = false ∧ c ≠ '-'

theorem Text.mem_head?_of_isPrefix {cs ds : List Char} (hinitial : ds <+: cs) {c : Char} (hc : c ∈ ds.head?) : c ∈ cs.head? := by
  obtain ⟨more, rfl⟩ := hinitial
  exact List.mem_head?_append_of_mem_head? hc

namespace Text.Unsigned

theorem of_isPrefix {cs ds : List Char} (h : Unsigned cs) (hinitial : ds <+: cs) : Unsigned ds := fun c hc =>
  h c (mem_head?_of_isPrefix hinitial hc)

/-- A numeral without a minus sign stands for no negative number. -/
theorem nonneg {cs : List Char} (h : Unsigned cs) {base : Nat} {n : Int} (hn : integer? base cs = some n) : 0 ≤ n := by
  have hbody : Unsigned ((cs.dropWhile isPadding).reverse.dropWhile isPadding).reverse := by
    have hdrop : cs.dropWhile isPadding = cs := by
      cases cs with
      | nil => rfl
      | cons c rest => exact List.dropWhile_cons_of_neg (by simp [isPadding, (h c rfl).1])
    rw [hdrop]
    refine h.of_isPrefix ?_
    exact List.rdropWhile_prefix _ _
  unfold integer? at hn
  dsimp only at hn
  split at hn
  · obtain ⟨m, -, rfl⟩ := Option.map_eq_some_iff.mp hn
    exact Int.natCast_nonneg m
  · rename_i rest heq
    rw [heq] at hbody
    exact absurd rfl (hbody '-' rfl).2
  · obtain ⟨m, -, rfl⟩ := Option.map_eq_some_iff.mp hn
    exact Int.natCast_nonneg m

end Text.Unsigned

namespace Lexer

/-- A character that begins a number or continues it is neither a blank nor a sign. -/
theorem plain_of_part {c : Char} (h : isNumberPart c = true ∨ Text.isDigit c = true) :
    Text.isBlank c = false ∧ c ≠ '-' ∧ c ≠ '+' := by
  refine ⟨h.elim isBlank_of_isNumberPart Text.isBlank_of_isDigit, ?_, ?_⟩
  · rintro rfl
    revert h
    decide
  · rintro rfl
    revert h
    decide

/-- What continues a number does not begin with a sign. -/
theorem part_of_head?_numberTail {cs : List Char} : ∀ c ∈ (cs.take (numberTail cs)).head?, isNumberPart c = true := by
  unfold numberTail
  split
  · nofun
  · split
    · rintro _ ⟨⟩
      assumption
    · nofun
  · split
    · rename_i h
      rintro _ ⟨⟩
      exact isNumberPart_of_isExponent (Bool.and_eq_true_iff.mp h).1
    · split
      · rintro _ ⟨⟩
        assumption
      · nofun

/-- A number begins with a period or a digit. -/
theorem part_of_head?_number {cs : List Char} {n : Nat} (h : number? cs = some n) :
    ∀ c ∈ (cs.take n).head?, isNumberPart c = true ∨ Text.isDigit c = true := by
  unfold number? at h
  split at h
  · split at h
    · cases h
      rintro _ ⟨⟩
      decide
    · cases h
  · split at h
    · cases h
      rintro _ ⟨⟩
      exact .inr ‹_›
    · cases h
  · cases h

/-- After a zero and a letter that begins no exponent, a number does not go on with a sign. -/
theorem part_of_head?_after_mark {cs rest : List Char} {n : Nat} {m : Char} (h : number? cs = some n)
    (htext : cs.take n = '0' :: m :: rest) (hm : isExponent m = false) : ∀ c ∈ rest.head?, isNumberPart c = true := by
  unfold number? at h
  split at h
  · split at h
    · cases h
      cases htext
    · cases h
  · rename_i d tail _
    split at h
    · cases h
      rw [List.take_succ_cons, List.cons.injEq] at htext
      obtain ⟨-, htext⟩ := htext
      cases tail with
      | nil => cases htext
      | cons e more =>
        have heq : e = m := by
          have hhead := congrArg List.head? htext
          rw [List.head?_take] at hhead
          split at hhead
          · cases hhead
          · exact Option.some.inj hhead
        rw [numberTail_part (by simp [heq ▸ hm])] at htext
        split at htext
        · rw [List.take_succ_cons, List.cons.injEq] at htext
          rw [← htext.2]
          exact part_of_head?_numberTail
        · cases htext
    · cases h
  · cases h

/-- The digits of a number, without a suffix and the mark of the base, begin neither with a blank nor with a sign. -/
theorem part_of_head?_digits {cs ds : List Char} {n : Nat} (h : number? cs = some n) (hinitial : ds <+: cs.take n) :
    ∀ c ∈ (Constant.base ds).2.head?, isNumberPart c = true ∨ Text.isDigit c = true := by
  have hwhole : ∀ c ∈ ds.head?, isNumberPart c = true ∨ Text.isDigit c = true := fun c hc =>
    part_of_head?_number h c (Text.mem_head?_of_isPrefix hinitial hc)
  unfold Constant.base
  split
  · rename_i m rest
    obtain ⟨more, htext⟩ := hinitial
    have hrest (hm : isExponent m = false) : ∀ c ∈ rest.head?, isNumberPart c = true ∨ Text.isDigit c = true := fun c hc =>
      .inl (part_of_head?_after_mark h htext.symm hm c (Text.mem_head?_of_isPrefix (List.prefix_append rest more) hc))
    split
    · rename_i hm
      rcases hm with rfl | rfl <;> exact hrest (by decide)
    · split
      · rename_i hm
        rcases hm with rfl | rfl <;> exact hrest (by decide)
      · exact hwhole
  · exact hwhole

/-- A lexeme that is a number is one. -/
theorem number_of_lexeme {cs : List Char} (h : (lexeme cs).1 = .numberLiteral) : number? cs = some (lexeme cs).2 := by
  have hfinds := finds_lexeme cs
  rw [h] at hfinds
  generalize (lexeme cs).2 = n at hfinds ⊢
  cases hfinds
  assumption

end Lexer

/-- The text of a lexed constant is a number at the head of some text. -/
theorem Token.number_of_lexed {t : Token} (ht : t.Lexed) (hkind : t.kind = .numberLiteral) :
    ∃ cs n, Lexer.number? cs = some n ∧ t.value.toList = cs.take n := by
  obtain ⟨text, hmem⟩ := ht
  obtain ⟨u, hu, hcontent⟩ := List.mem_map.mp hmem
  obtain ⟨c, rest, hlexeme, hvalue⟩ := Lexer.exists_lexeme hu
  rw [kind_of_content hcontent, hkind] at hlexeme
  exact ⟨c :: rest, _, Lexer.number_of_lexeme hlexeme.symm, by rw [← value_of_content hcontent, hvalue, String.toList_ofList]⟩

/-- The number of a lexed constant fits into a word. -/
theorem Token.integer_of_lexed {t : Token} (ht : t.Lexed) (hkind : t.kind = .numberLiteral) :
    Constant.integer t.value ≠ .error .outOfRange := by
  obtain ⟨cs, length, hnumber, hvalue⟩ := number_of_lexed ht hkind
  unfold Constant.integer
  dsimp only
  split
  · simp
  · rename_i n hn
    split
    · simp
    · rename_i hfits
      rw [not_or, Int.not_lt] at hfits
      have hinitial : (t.value.toList.reverse.dropWhile Constant.isSuffix).reverse <+: cs.take length := by
        rw [hvalue]
        exact List.rdropWhile_prefix _ _
      have hunsigned : Text.Unsigned (Constant.base (t.value.toList.reverse.dropWhile Constant.isSuffix).reverse).2 := fun c hc =>
        (Lexer.plain_of_part (Lexer.part_of_head?_digits hnumber hinitial c hc)).imp_right And.left
      have hnonneg : 0 ≤ n := hunsigned.nonneg hn
      have hmin : Word.minSigned ≤ n := Int.le_trans (by decide) hnonneg
      rw [Word.ofInt?, if_pos ⟨hmin, hfits.2⟩]
      simp

/-! ## Evaluation -/

namespace Expression

/-- An expression is evaluated when all of its tokens are read. -/
theorem evaluate_eq_ok_iff {ts : List Token} {b : Bool} : evaluate ts = .ok b ↔ ∃ w, read 0 ts = some (w, []) ∧ w.truth = b := by
  unfold evaluate read
  cases expression 0 ts with
  | error e => cases e <;> simp [outcome]
  | ok r =>
    obtain ⟨w, left, hleft⟩ := r
    cases left with
    | nil => simp [outcome]
    | cons t rest => simp [outcome]

/-- A tree that the grammar derives tells whether its tokens are evaluated, and to what. -/
theorem Derives.evaluate_iff {ts : List Token} {e : Tree} (h : Derives .conditional ts e) {b : Bool} :
    evaluate ts = .ok b ↔ e.value?.map Word.truth = some b := by
  have hread : read 0 ts = e.value?.map fun w => (w, []) := by
    have heq := h.read_eq (Nat.zero_le _) (stops_nil _) apart_nil
    rw [List.append_nil] at heq
    exact heq.trans (bind_readOn_of_stops (stops_nil 0) _)
  rw [evaluate_eq_ok_iff, hread]
  cases e.value? <;> simp

/-- The tokens of an expression that is evaluated are derived by the grammar. -/
theorem exists_derives {ts : List Token} {b : Bool} (h : evaluate ts = .ok b) : ∃ e, Derives .conditional ts e := by
  obtain ⟨w, hread, -⟩ := evaluate_eq_ok_iff.mp h
  obtain ⟨taken, htaken, ⟨s, hreads, -⟩, -⟩ := sound_read ts 0 w [] (Nat.zero_le _) hread
  obtain ⟨e, he, -⟩ := hreads.loosen (p := .conditional) s.one_le_level
  rw [htaken, List.append_nil]
  exact ⟨e, he⟩

/-- An expression of lexed tokens whose character constants fit into a word is refused if it is not evaluated. -/
theorem refused_of_lexed {ts : List Token} (hlexed : ∀ t ∈ ts, t.Lexed)
    (hfit : ∀ t ∈ ts, t.kind = .characterLiteral → Constant.character t.value ≠ .error .outOfRange) {cause : EvalError}
    (h : evaluate ts = .error cause) : ∃ e, cause = .parse e ∧ e.isEvaluation = true := by
  rcases cause_of_evaluate hlexed h with ⟨e, rfl⟩ | ⟨-, t, ht, hconstant⟩
  · refine ⟨e, rfl, ?_⟩
    unfold evaluate at h
    split at h
    · cases h
      rfl
    · rename_i hparse _
      cases h
      exact absurd rfl (hparse e)
    · split at h
      · cases h
      · cases h
        rfl
  · exfalso
    unfold Token.constant at hconstant
    split at hconstant
    · rename_i hkind
      exact Token.integer_of_lexed (hlexed t ht) hkind hconstant
    · split at hconstant
      · rename_i hkind
        refine hfit t ht hkind ?_
        unfold characterWord at hconstant
        split at hconstant
        · cases hconstant
        · cases hconstant
        · exact hconstant
      · cases hconstant

/-- An expression of lexed tokens, whose character constants fit into a word, is evaluated just when the grammar derives its tokens, every
constant of the tree has a word and no divisor in it is zero. Whichever tree is derived, the expression is then true when the value of the
tree is not zero. Otherwise it is refused as an expression that cannot be evaluated. -/
theorem evaluate_eq_tree {ts : List Token} (hlexed : ∀ t ∈ ts, t.Lexed)
    (hfit : ∀ t ∈ ts, t.kind = .characterLiteral → Constant.character t.value ≠ .error .outOfRange) :
    ((∃ b, evaluate ts = .ok b) ↔ ∃ e, Derives .conditional ts e ∧ e.Convertible ∧ e.DivisorsNonzero) ∧
    (∀ e, Derives .conditional ts e → ∀ b, evaluate ts = .ok b ↔
      e.Convertible ∧ e.DivisorsNonzero ∧ e.value?.map Word.truth = some b) ∧
    (¬(∃ b, evaluate ts = .ok b) → ∃ cause, evaluate ts = .error (.parse cause) ∧ cause.isEvaluation = true) := by
  have hvalue {e : Tree} {b : Bool} (h : e.value?.map Word.truth = some b) : e.Convertible ∧ e.DivisorsNonzero := by
    obtain ⟨w, hw, -⟩ := Option.map_eq_some_iff.mp h
    exact e.exists_value?_iff.mp ⟨w, hw⟩
  refine ⟨⟨?_, ?_⟩, ?_, ?_⟩
  · rintro ⟨b, h⟩
    obtain ⟨e, he⟩ := exists_derives h
    exact ⟨e, he, hvalue (he.evaluate_iff.mp h)⟩
  · rintro ⟨e, he, hsound⟩
    obtain ⟨w, hw⟩ := e.exists_value?_iff.mpr hsound
    exact ⟨w.truth, he.evaluate_iff.mpr (by rw [hw, Option.map_some])⟩
  · intro e he b
    rw [he.evaluate_iff]
    constructor
    · intro h
      exact ⟨(hvalue h).1, (hvalue h).2, h⟩
    · rintro ⟨-, -, h⟩
      exact h
  · intro hnone
    cases h : evaluate ts with
    | ok b => exact absurd ⟨b, h⟩ hnone
    | error cause =>
      obtain ⟨e, rfl, he⟩ := refused_of_lexed hlexed hfit h
      exact ⟨e, rfl, he⟩

/-- The tokens of an expression with operators of several strata. -/
def sample : List Token :=
  Token.ofText "8 - 4 == 4 ? f(x) || 1 : -1"

set_option maxRecDepth 2000 in
theorem evaluate_eq_tree_sample :
    (∀ t ∈ sample, t.Lexed) ∧ evaluate sample = .ok true ∧
    ∃ e, Derives .conditional sample e ∧ e.Convertible ∧ e.DivisorsNonzero ∧ e.value?.map Word.truth = some true := by
  have hlexed : ∀ t ∈ sample, t.Lexed := fun t ht => Token.lexed_of_mem ht
  have hplain : (sample.all fun t => t.kind != .characterLiteral) = true := by cbv
  have hvalue : evaluate sample = .ok true := by cbv
  obtain ⟨hiff, hall, -⟩ := evaluate_eq_tree hlexed fun t ht hkind =>
    absurd hkind (bne_iff_ne.mp (List.all_eq_true.mp hplain t ht))
  obtain ⟨e, he, -⟩ := hiff.mp ⟨true, hvalue⟩
  exact ⟨hlexed, hvalue, e, he, (hall e he true).mp hvalue⟩

end Expression

end Prepass
