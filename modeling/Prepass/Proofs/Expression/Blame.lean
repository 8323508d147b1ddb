import Prepass.Expression
import Prepass.Proofs.Token.Content
import Prepass.Proofs.Token.Reading

/-!
# Why an expression has no value

An expression has no value because its tokens are refused, or because one of them is a constant without a value (`blamed_of_evaluate`).
Among lexed tokens the latter is a constant whose number does not fit into a signed word (`Token.constant_of_lexed`): a character constant
is closed by a quote that no backslash stands before, so a backslash in it always has a character after it.
-/

namespace Prepass

/-- The word of a constant. -/
def Token.constant (t : Token) : Except EvalError Word :=
  if t.kind = .numberLiteral then Constant.integer t.value
  else if t.kind = .characterLiteral then Expression.characterWord t.value
  else .error (.parse .expectedTerm)

/-! ## The token to blame -/

namespace Expression

/-- The cause is a refusal, or one of the tokens is a constant without a value for that cause. -/
def Blamed (ts : List Token) (e : EvalError) : Prop :=
  (∃ cause, e = .parse cause) ∨ ∃ t ∈ ts, t.constant = .error e

/-- What some tokens are to blame for, more tokens are. -/
theorem Blamed.mono {ts ts' : List Token} {e : EvalError} (h : Blamed ts e) (hsub : ts ⊆ ts') : Blamed ts' e :=
  h.imp_right fun ⟨t, ht, herror⟩ => ⟨t, hsub ht, herror⟩

/-- What reading tokens comes to: it leaves some of them, or it stops at a cause to blame on them. -/
def Accounted {β : Type} (ts : List Token) (left : β → List Token) : Except EvalError β → Prop
  | .ok b => left b ⊆ ts
  | .error e => Blamed ts e

/-- A refusal needs nothing to blame. -/
theorem accounted_refused {β : Type} (ts : List Token) (left : β → List Token) (cause : ParseError) :
    Accounted ts left (.error (.parse cause)) :=
  .inl ⟨cause, rfl⟩

/-- Reading one punctuator leaves the others, or it is a refusal. -/
theorem accounted_expect (v : String) (ts : List Token) : Accounted ts Subtype.val (expect v ts) := by
  unfold expect
  split
  · exact accounted_refused ..
  · split
    · exact List.subset_cons_self ..
    · exact accounted_refused ..

/-- Skipping a group leaves tokens that were there. -/
theorem subset_of_skipGroup {depth : Nat} {ts rest : List Token} (h : skipGroup depth ts = some rest) : rest ⊆ ts := by
  induction ts generalizing depth with
  | nil =>
    cases depth with
    | zero =>
      cases h
      exact List.Subset.refl _
    | succ d => cases h
  | cons t ts ih =>
    cases depth with
    | zero =>
      cases h
      exact List.Subset.refl _
    | succ d => exact List.subset_cons_of_subset t (ih h)

/-- Reading a call leaves tokens that were there. -/
theorem subset_of_call {ts : List Token} {w : Word} {left : Shorter ts} (h : call ts = .ok (w, left)) : left.1 ⊆ ts := by
  unfold call at h
  split at h
  · split at h
    · split at h
      · rename_i hskip
        cases h
        exact List.subset_cons_of_subset _ (List.subset_cons_of_subset _ (subset_of_skipGroup hskip))
      · cases h
    · cases h
  · cases h

/-- A term leaves tokens that were there, or a constant in it is to blame. -/
theorem accounted_term (ts : List Token) : Accounted ts (fun r => r.2.1) (term ts) := by
  unfold term
  split
  · exact accounted_refused ..
  · rename_i t rest
    -- a constant stands alone, and what it has no value for is to blame on it
    have hconstant {r : Except EvalError Word} (hr : t.constant = r) :
        Accounted (t :: rest) (fun r => r.2.1) (r.map fun w => ((w, ⟨rest, by simp⟩) : Word × Shorter (t :: rest))) := by
      cases r with
      | ok w => exact List.subset_cons_self ..
      | error e => exact .inr ⟨t, by simp, hr⟩
    dsimp only
    split
    · rename_i hkind
      exact hconstant (by rw [Token.constant, if_pos hkind])
    · rename_i hnumber
      split
      · rename_i hkind
        exact hconstant (by rw [Token.constant, if_neg hnumber, if_pos hkind])
      · split
        · rename_i hcall
          exact subset_of_call hcall
        · split
          · exact List.subset_cons_self ..
          · exact accounted_refused ..

/-- Reading leaves some of the tokens, or stops at a cause to blame on them. -/
theorem Accounted.cases {β : Type} {ts : List Token} {left : β → List Token} {r : Except EvalError β} (h : Accounted ts left r) :
    (∃ e, r = .error e ∧ Blamed ts e) ∨ ∃ b, r = .ok b ∧ left b ⊆ ts := by
  cases r with
  | error e => exact .inl ⟨e, rfl, h⟩
  | ok b => exact .inr ⟨b, rfl, h⟩

mutual

/-- So does an operand. -/
theorem accounted_primary (ts : List Token) : Accounted ts (fun r => r.2.1) (primary ts) := by
  unfold primary
  split
  · exact accounted_refused ..
  · rename_i t rest
    have hrest : rest ⊆ t :: rest := List.subset_cons_self ..
    split
    · rcases (accounted_expression unaryPrecedence rest).cases with ⟨e, hr, he⟩ | ⟨⟨w, left⟩, hr, hleft⟩
      · rw [hr]
        exact he.mono hrest
      · rw [hr]
        exact List.Subset.trans hleft hrest
    · split
      · rcases (accounted_expression 0 rest).cases with ⟨e, hr, he⟩ | ⟨⟨w, inner⟩, hr, hinner⟩
        · rw [hr]
          exact he.mono hrest
        · rw [hr]
          dsimp only
          rcases (accounted_expect ")" inner.1).cases with ⟨e, hc, he⟩ | ⟨left, hc, hleft⟩
          · rw [hc]
            exact he.mono (List.Subset.trans hinner hrest)
          · rw [hc]
            exact List.Subset.trans hleft (List.Subset.trans hinner hrest)
      · exact accounted_term (t :: rest)
termination_by (ts.length, 1)

/-- So does an expression of any tightness. -/
theorem accounted_expression (least : Nat) (ts : List Token) : Accounted ts (fun r => r.2.1) (expression least ts) := by
  unfold expression
  rcases (accounted_primary ts).cases with ⟨e, hr, he⟩ | ⟨⟨w, after⟩, hr, hafter⟩
  · rw [hr]
    exact he
  · rw [hr]
    dsimp only
    rcases (accounted_climb least w after.1).cases with ⟨e, hc, he⟩ | ⟨⟨w', left⟩, hc, hleft⟩
    · rw [hc]
      exact he.mono hafter
    · rw [hc]
      exact List.Subset.trans hleft hafter
termination_by (ts.length, 2)

/-- So do the operators that follow a value. -/
theorem accounted_climb (least : Nat) (lhs : Word) (ts : List Token) : Accounted ts (fun r => r.2.1) (climb least lhs ts) := by
  unfold climb
  split
  · exact List.Subset.refl _
  · rename_i t rest
    have hrest : rest ⊆ t :: rest := List.subset_cons_self ..
    split
    · split
      · exact List.Subset.refl _
      · rcases (accounted_expression 0 rest).cases with ⟨e, hr, he⟩ | ⟨⟨yes, afterYes⟩, hr, hyes⟩
        · rw [hr]
          exact he.mono hrest
        · rw [hr]
          dsimp only
          rcases (accounted_expect ":" afterYes.1).cases with ⟨e, hc, he⟩ | ⟨afterColon, hc, hcolon⟩
          · rw [hc]
            exact he.mono (List.Subset.trans hyes hrest)
          · rw [hc]
            dsimp only
            have hsub : afterColon.1 ⊆ t :: rest := List.Subset.trans hcolon (List.Subset.trans hyes hrest)
            have hless : afterColon.1.length < (t :: rest).length := Nat.lt_succ_of_lt (Nat.lt_trans afterColon.2 afterYes.2)
            rcases (accounted_expression conditionalPrecedence afterColon.1).cases with ⟨e, hn, he⟩ | ⟨⟨no, afterNo⟩, hn, hno⟩
            · rw [hn]
              exact he.mono hsub
            · rw [hn]
              dsimp only
              have hlater : afterNo.1.length < (t :: rest).length := Nat.lt_trans afterNo.2 hless
              rcases (accounted_climb least (if lhs.truth then yes else no) afterNo.1).cases with ⟨e, hm, he⟩ | ⟨⟨w, left⟩, hm, hleft⟩
              · rw [hm]
                exact he.mono (List.Subset.trans hno hsub)
              · rw [hm]
                exact List.Subset.trans hleft (List.Subset.trans hno hsub)
    · split
      · exact List.Subset.refl _
      · rename_i op _
        split
        · exact List.Subset.refl _
        · rcases (accounted_expression (op.precedence + 1) rest).cases with ⟨e, hr, he⟩ | ⟨⟨rhs, afterRhs⟩, hr, hrhs⟩
          · rw [hr]
            exact he.mono hrest
          · rw [hr]
            dsimp only
            split
            · exact accounted_refused ..
            · rename_i result _
              have hless : afterRhs.1.length < (t :: rest).length := Nat.lt_succ_of_lt afterRhs.2
              rcases (accounted_climb least result afterRhs.1).cases with ⟨e, hm, he⟩ | ⟨⟨w, left⟩, hm, hleft⟩
              · rw [hm]
                exact he.mono (List.Subset.trans hrhs hrest)
              · rw [hm]
                exact List.Subset.trans hleft (List.Subset.trans hrhs hrest)
termination_by (ts.length, 0)

end

/-- An expression without a value is refused, or a constant among its tokens has none. -/
theorem blamed_of_evaluate {ts : List Token} {e : EvalError} (h : evaluate ts = .error e) : Blamed ts e := by
  unfold evaluate at h
  rcases (accounted_expression 0 ts).cases with ⟨e', hr, he⟩ | ⟨⟨w, left⟩, hr, -⟩
  · rw [hr] at h
    cases e' with
    | parse cause =>
      cases h
      exact .inl ⟨_, rfl⟩
    | _ =>
      cases h
      exact he
  · rw [hr] at h
    dsimp only at h
    split at h
    · cases h
    · cases h
      exact .inl ⟨_, rfl⟩

end Expression

/-! ## Lexed constants -/

namespace Lexer

/-- Between its quotes a literal is never a lone backslash: the backslash would take the closing quote along. -/
theorem body_of_literalTail {quote : Char} {cs : List Char} {n : Nat} (h : literalTail? quote cs = some n) :
    (cs.take n).dropLast ≠ ['\\'] := by
  cases cs with
  | nil => cases h
  | cons c rest =>
    rw [literalTail?.eq_def] at h
    dsimp only at h
    split at h
    · cases h
      simp
    · split at h
      · cases rest with
        | nil => cases h
        | cons d more =>
          obtain ⟨m, hm, rfl⟩ := Option.map_eq_some_iff.mp h
          obtain ⟨hpos, hle⟩ := length_of_literalTail hm
          have hmore : more.take m ≠ [] := by
            intro hnil
            rcases List.take_eq_nil_iff.mp hnil with rfl | rfl
            · cases hpos
            · cases hm
          simp [List.dropLast_cons_of_ne_nil hmore]
      · rename_i hescape
        obtain ⟨m, -, rfl⟩ := Option.map_eq_some_iff.mp h
        rw [List.take_succ_cons]
        cases rest.take m with
        | nil => simp
        | cons d more => simp [hescape]

/-- A lexeme that is a character constant is a literal between apostrophes. -/
theorem literal_of_lexeme {cs : List Char} (h : (lexeme cs).1 = .characterLiteral) :
    literal? Text.apostrophe characterMarks cs = some (lexeme cs).2 := by
  have hfinds := finds_lexeme cs
  rw [h] at hfinds
  generalize (lexeme cs).2 = n at hfinds ⊢
  cases hfinds
  assumption

/-- A character constant is never a lone backslash between apostrophes. -/
theorem characterBody_of_literal {cs : List Char} {n : Nat} (h : literal? Text.apostrophe characterMarks cs = some n) :
    Constant.characterBody? (cs.take n) ≠ some ['\\'] := by
  obtain ⟨mark, rest, m, hmark, rfl, hm, rfl⟩ := (literal?_eq_some_iff apostrophe_notMem_characterMarks).mp h
  have hplain : ∀ c ∈ mark, decide (c ≠ Text.apostrophe) = true := by
    intro c hc
    rcases List.mem_cons.mp hmark with rfl | hmem
    · cases hc
    · exact decide_eq_true fun heq => apostrophe_notMem_characterMarks mark hmem (heq ▸ hc)
  rw [List.take_length_add_append, List.take_succ_cons, Constant.characterBody?, List.dropWhile_append_of_pos hplain]
  simpa using body_of_literalTail hm

end Lexer

namespace Constant

/-- A character constant that lacks a character is a lone backslash between quotes. -/
theorem body_of_noCharacter {text : String} (h : character text = .error .noCharacter) : characterBody? text.toList = some ['\\'] := by
  have hnumeral (base : Nat) (cs : List Char) : numeral base cs ≠ .error .noCharacter := by
    unfold numeral
    split
    · simp
    · split <;> simp
  unfold character at h
  split at h
  · cases h
  · cases h
  · rename_i c rest hbody
    split at h
    · rename_i hc
      subst hc
      unfold escape at h
      split at h
      · exact hbody
      · split at h
        · exact absurd h (hnumeral _ _)
        · split at h
          · exact absurd h (hnumeral _ _)
          · split at h <;> cases h
    · cases h

end Constant

/-- The word of a character constant in an expression lacks a numeral never, and a character only when the constant does. -/
theorem Expression.cause_of_characterWord {text : String} {e : EvalError} (h : characterWord text = .error e) :
    e ≠ .notNumeral ∧ (e = .noCharacter → Constant.character text = .error .noCharacter) := by
  unfold characterWord at h
  split at h
  · cases h
    exact ⟨nofun, nofun⟩
  · cases h
    exact ⟨nofun, nofun⟩
  · rename_i hparse hnumeral
    refine ⟨?_, ?_⟩
    · rintro rfl
      exact hnumeral h
    · rintro rfl
      exact h

/-- A lexed constant without a value is refused, or its number does not fit into a signed word. -/
theorem Token.constant_of_lexed {t : Token} (ht : t.Lexed) {e : EvalError} (h : t.constant = .error e) :
    (∃ cause, e = .parse cause) ∨ e = .outOfRange := by
  unfold constant at h
  split at h
  · unfold Constant.integer at h
    dsimp only at h
    split at h
    · cases h
      exact .inl ⟨_, rfl⟩
    · split at h
      · cases h
      · split at h
        · cases h
        · cases h
          exact .inr rfl
  · split at h
    · rename_i hkind
      cases e with
      | parse cause => exact .inl ⟨cause, rfl⟩
      | outOfRange => exact .inr rfl
      | notNumeral => exact absurd rfl (Expression.cause_of_characterWord h).1
      | noCharacter =>
        obtain ⟨text, hmem⟩ := ht
        obtain ⟨u, hu, hcontent⟩ := List.mem_map.mp hmem
        obtain ⟨c, rest, hlexeme, hvalue⟩ := Lexer.exists_lexeme hu
        rw [kind_of_content hcontent, hkind] at hlexeme
        have hbody := Constant.body_of_noCharacter ((Expression.cause_of_characterWord h).2 rfl)
        rw [← value_of_content hcontent, hvalue, String.toList_ofList] at hbody
        exact absurd hbody (Lexer.characterBody_of_literal (Lexer.literal_of_lexeme hlexeme.symm))
    · cases h
      exact .inl ⟨_, rfl⟩

/-- An expression of lexed tokens without a value is refused, or it has a constant that does not fit into a signed word. -/
theorem Expression.cause_of_evaluate {ts : List Token} (hts : ∀ t ∈ ts, t.Lexed) {e : EvalError} (h : evaluate ts = .error e) :
    (∃ cause, e = .parse cause) ∨ (e = .outOfRange ∧ ∃ t ∈ ts, t.constant = .error .outOfRange) := by
  rcases blamed_of_evaluate h with hparse | ⟨t, ht, hconstant⟩
  · exact .inl hparse
  · rcases Token.constant_of_lexed (hts t ht) hconstant with hparse | rfl
    · exact .inl hparse
    · exact .inr ⟨rfl, t, ht, hconstant⟩

end Prepass
