import Mathlib
import Prepass.Proofs.Expression.Grammar

/-!
# Reading expressions by precedence

The functions that read an expression carry bounds on the tokens they leave. Here they are stated without these, as equations in the word
that is read and the tokens that are left: an expression is an operand and the operators after it (`read_eq`), an operand is told by its
first token (`readOperand_unary`, `readOperand_group`, `readOperand_word`), and so are operators (`readOn_question`, `readOn_binary`).
Parentheses after a name are skipped up to where they are balanced (`exists_balanced`).
-/

namespace Prepass

namespace Expression

/-! ## Equations -/

/-- The word that was read and the tokens that are left. -/
def outcome {p : List Token → Prop} : Except EvalError (Word × { rest : List Token // p rest }) → Option (Word × List Token)
  | .ok (w, left) => some (w, left.1)
  | .error _ => none

/-- An expression whose operators bind at least as tightly as `least`. -/
def read (least : Nat) (ts : List Token) : Option (Word × List Token) :=
  outcome (expression least ts)

/-- An operand. -/
def readOperand (ts : List Token) : Option (Word × List Token) :=
  outcome (primary ts)

/-- What the operators that follow a value make of it. -/
def readOn (least : Nat) (w : Word) (ts : List Token) : Option (Word × List Token) :=
  outcome (climb least w ts)

/-- The tokens after one punctuator. -/
def after (v : String) (ts : List Token) : Option (List Token) :=
  (expect v ts).toOption.map Subtype.val

/-! ### Punctuators -/

section

variable {v : String} {t : Token}

/-- A punctuator is told by its kind and its value. -/
theorem isPunctuator_iff : isPunctuator v t = true ↔ t.kind = .punctuator ∧ t.value = v := by
  simp [isPunctuator]

/-- A token is no other punctuator than the one that it is. -/
theorem isPunctuator_eq_false {v' : String} (h : isPunctuator v t = true) (hne : v ≠ v') : isPunctuator v' t = false := by
  rw [isPunctuator_iff] at h
  simp [isPunctuator, h, hne]

/-- A punctuator is a unary operator when its value is one. -/
theorem unaryOp?_punctuator (h : isPunctuator v t = true) : unaryOp? t = UnaryOp.ofText? v := by
  obtain ⟨hkind, hvalue⟩ := isPunctuator_iff.mp h
  rw [unaryOp?, if_pos hkind, hvalue]

/-- A punctuator is a binary operator when its value is one. -/
theorem binaryOp?_punctuator (h : isPunctuator v t = true) : binaryOp? t = BinaryOp.ofText? v := by
  obtain ⟨hkind, hvalue⟩ := isPunctuator_iff.mp h
  rw [binaryOp?, if_pos hkind, hvalue]

/-- A binary operator is not a punctuator that is no binary operator. -/
theorem isPunctuator_of_binaryOp? {op : BinaryOp} (h : binaryOp? t = some op) (hnone : BinaryOp.ofText? v = none) :
    isPunctuator v t = false := by
  cases hv : isPunctuator v t with
  | false => rfl
  | true =>
    rw [binaryOp?_punctuator hv, hnone] at h
    cases h

@[simp]
theorem after_nil (v : String) : after v [] = none := rfl

/-- The tokens after a punctuator are the rest when the punctuator comes first. -/
theorem after_cons (h : isPunctuator v t = true) (rest : List Token) : after v (t :: rest) = some rest := by
  simp [after, expect, h, Except.toOption]

/-- What comes after a punctuator has it in front. -/
theorem exists_of_after {ts rest : List Token} (h : after v ts = some rest) : ∃ t, ts = t :: rest ∧ isPunctuator v t = true := by
  unfold after expect at h
  split at h
  · cases h
  · rename_i t more
    cases hv : isPunctuator v t with
    | false => simp [hv, Except.toOption] at h
    | true =>
      simp only [hv, if_true, Except.toOption, Option.map_some, Option.some.injEq] at h
      exact ⟨t, by rw [h], hv⟩

end

/-! ### Expressions and operands -/

/-- An expression is an operand and what the operators after it make of its value. -/
theorem read_eq (least : Nat) (ts : List Token) : read least ts = (readOperand ts).bind fun r => readOn least r.1 r.2 := by
  unfold read readOperand readOn
  rw [expression]
  cases primary ts with
  | error e => rfl
  | ok r =>
    dsimp only [outcome, Option.bind_some]
    cases climb least r.1 r.2.1 <;> rfl

section

variable {t : Token}

/-- No operand is read where nothing is. -/
theorem readOperand_nil : readOperand [] = none := by
  rw [readOperand, primary]
  rfl

/-- A unary operator applies to the operand after it. -/
theorem readOperand_unary {op : UnaryOp} (h : unaryOp? t = some op) (rest : List Token) :
    readOperand (t :: rest) = (read unaryPrecedence rest).map fun r => (op.apply r.1, r.2) := by
  unfold readOperand read
  rw [primary]
  simp only [h]
  cases expression unaryPrecedence rest <;> rfl

/-- An expression in parentheses is an operand. -/
theorem readOperand_group (h : isPunctuator "(" t = true) (rest : List Token) :
    readOperand (t :: rest) = (read 0 rest).bind fun r => (after ")" r.2).map fun left => (r.1, left) := by
  have hunary : unaryOp? t = none := unaryOp?_punctuator h
  unfold readOperand read after
  rw [primary]
  simp only [hunary, h, if_true]
  cases expression 0 rest with
  | error e => rfl
  | ok r =>
    dsimp only [outcome, Option.bind_some]
    cases expect ")" r.2.1 <;> rfl

/-- Any other operand is a term. -/
theorem readOperand_term (hunary : unaryOp? t = none) (hgroup : isPunctuator "(" t = false) (rest : List Token) :
    readOperand (t :: rest) = outcome (term (t :: rest)) := by
  unfold readOperand
  rw [primary]
  simp only [hunary, hgroup, Bool.false_eq_true, if_false]

/-- A token that is no punctuator begins a term. -/
theorem readOperand_word (h : t.kind ≠ .punctuator) (rest : List Token) : readOperand (t :: rest) = outcome (term (t :: rest)) :=
  readOperand_term (if_neg h) (by simp [isPunctuator, h]) rest

end

/-! ### Operators -/

/-- No operator that binds at least as tightly as `least` comes next. -/
def Stops (least : Nat) (ts : List Token) : Prop :=
  ∀ t, ts.head? = some t → (isPunctuator "?" t = true → conditionalPrecedence < least) ∧
    ∀ op, binaryOp? t = some op → op.precedence < least

section

variable {t : Token} {least : Nat}

/-- Where no operator comes next that binds tightly enough, the value stays. -/
theorem readOn_of_stops {ts : List Token} (h : Stops least ts) (w : Word) : readOn least w ts = some (w, ts) := by
  unfold readOn
  rw [climb.eq_def]
  cases ts with
  | nil => rfl
  | cons t rest =>
    obtain ⟨hquestion, hbinary⟩ := h t rfl
    dsimp only
    by_cases hq : isPunctuator "?" t = true
    · rw [if_pos hq, if_pos (hquestion hq)]
      rfl
    · rw [if_neg hq]
      split
      · rfl
      · rename_i op hop
        rw [if_pos (hbinary op hop)]
        rfl

/-- A question mark chooses between two expressions, both of which are read, and reading goes on with the one chosen. -/
theorem readOn_question (h : isPunctuator "?" t = true) (hle : least ≤ conditionalPrecedence) (w : Word) (rest : List Token) :
    readOn least w (t :: rest) = (read 0 rest).bind fun yes => (after ":" yes.2).bind fun more =>
      (read conditionalPrecedence more).bind fun no => readOn least (if w.truth then yes.1 else no.1) no.2 := by
  unfold readOn read after
  rw [climb, if_pos h, if_neg (Nat.not_lt.mpr hle)]
  cases expression 0 rest with
  | error e => rfl
  | ok yes =>
    dsimp only [outcome, Option.bind_some]
    cases expect ":" yes.2.1 with
    | error e => rfl
    | ok more =>
      dsimp only [Except.toOption, Option.map_some, Option.bind_some]
      cases expression conditionalPrecedence more.1 with
      | error e => rfl
      | ok no =>
        dsimp only [outcome, Option.bind_some]
        cases climb least (if w.truth then yes.1 else no.1) no.2.1 <;> rfl

/-- A binary operator takes what binds more tightly for its right side, and reading goes on with the result. -/
theorem readOn_binary {op : BinaryOp} (h : binaryOp? t = some op) (hle : least ≤ op.precedence) (w : Word) (rest : List Token) :
    readOn least w (t :: rest) = (read (op.precedence + 1) rest).bind fun rhs => (op.result? w rhs.1).bind fun result =>
      readOn least result rhs.2 := by
  have hquestion : isPunctuator "?" t = false := isPunctuator_of_binaryOp? h rfl
  unfold readOn read
  rw [climb]
  simp only [hquestion, h, Bool.false_eq_true, if_false, if_neg (Nat.not_lt.mpr hle)]
  cases expression (op.precedence + 1) rest with
  | error e => rfl
  | ok rhs =>
    dsimp only [outcome, Option.bind_some]
    cases op.result? w rhs.1 with
    | none => rfl
    | some result =>
      dsimp only [Option.bind_some]
      cases climb least result rhs.2.1 <;> rfl

end

/-! ### Terms -/

/-- In balanced tokens no parenthesis around them is closed. -/
theorem Balanced.skipGroup_append {inner : List Token} (h : Balanced inner) (depth : Nat) (rest : List Token) :
    skipGroup (depth + 1) (inner ++ rest) = skipGroup (depth + 1) rest := by
  induction h generalizing depth rest with
  | nil => rfl
  | token hopen hclose _ ih => simp [skipGroup, hopen, hclose, ih]
  | group ho _ hc _ ihinner ihmore => simp [skipGroup, ho, hc, ihinner, ihmore]

/-- What is skipped to close a parenthesis is balanced up to the one that closes it. -/
theorem exists_balanced {depth : Nat} {ts rest : List Token} (h : skipGroup (depth + 1) ts = some rest) :
    ∃ inner c more, ts = inner ++ c :: more ∧ Balanced inner ∧ c.value = ")" ∧ skipGroup depth more = some rest := by
  induction hn : ts.length using Nat.strongRecOn generalizing depth ts with
  | ind n ih =>
    cases ts with
    | nil => cases h
    | cons t ts =>
      rw [skipGroup] at h
      have hless : ts.length < n := by simp [← hn]
      by_cases hopen : t.value = "("
      · rw [if_pos hopen] at h
        -- the parenthesis is closed first, and then the one around it
        obtain ⟨inner, c, more, rfl, hinner, hc, hmore⟩ := ih _ hless h rfl
        obtain ⟨inner', c', more', rfl, hinner', hc', hmore'⟩ := ih more.length (by simp at hless; omega) hmore rfl
        exact ⟨t :: inner ++ c :: inner', c', more', by simp, .group hopen hinner hc hinner', hc', hmore'⟩
      · rw [if_neg hopen] at h
        by_cases hclose : t.value = ")"
        · rw [if_pos hclose] at h
          exact ⟨[], t, ts, rfl, .nil, hclose, h⟩
        · rw [if_neg hclose] at h
          obtain ⟨inner, c, more, rfl, hinner, hc, hmore⟩ := ih _ hless h rfl
          exact ⟨t :: inner, c, more, rfl, .token hopen hclose hinner, hc, hmore⟩

/-- No parenthesis is opened next. -/
def Apart (ts : List Token) : Prop :=
  ∀ t, ts.head? = some t → isPunctuator "(" t = false

/-- No parenthesis is read where none is opened. -/
theorem after_of_apart {ts : List Token} (h : Apart ts) : after "(" ts = none := by
  cases ts with
  | nil => rfl
  | cons t rest => simp [after, expect, h t rfl, Except.toOption]

section

variable {t : Token} {rest : List Token}

/-- A literal has the value of its constant. -/
theorem outcome_term_literal (h : t.kind = .numberLiteral ∨ t.kind = .characterLiteral) :
    outcome (term (t :: rest)) = t.constant.toOption.map fun w => (w, rest) := by
  unfold term Token.constant
  rcases h with h | h
  · simp only [h, if_true]
    cases Constant.integer t.value <;> rfl
  · simp only [h, if_true]
    cases characterWord t.value <;> rfl

/-- A name before a group in parentheses counts as zero, whatever the group is. -/
theorem outcome_call (t : Token) (rest : List Token) :
    outcome (call (t :: rest)) =
      if t.kind = .identifier then (after "(" rest).bind fun more => (skipGroup 1 more).map fun left => (Word.ofInt 0, left)
      else none := by
  cases rest with
  | nil => simp [call, outcome]
  | cons o more =>
    by_cases h : t.kind = .identifier ∧ isPunctuator "(" o = true
    · rw [call, if_pos h, if_pos h.1, after_cons h.2, Option.bind_some]
      split <;> simp [outcome, *]
    · rw [call, if_neg h]
      split
      · rename_i hkind
        have ho : isPunctuator "(" o = false := Bool.eq_false_iff.mpr fun ho => h ⟨hkind, ho⟩
        simp [after, expect, ho, Except.toOption, outcome]
      · rfl

/-- A token that is no literal is a call or a name. -/
theorem outcome_term (hnumber : t.kind ≠ .numberLiteral) (hcharacter : t.kind ≠ .characterLiteral) :
    outcome (term (t :: rest)) =
      (outcome (call (t :: rest))).or (if t.kind = .identifier then some (identifierWord t.value, rest) else none) := by
  unfold term
  simp only [hnumber, hcharacter, if_false]
  cases call (t :: rest) with
  | ok r => rfl
  | error e =>
    by_cases hkind : t.kind = .identifier <;> simp [hkind, outcome]

end

end Expression

end Prepass
