import Prepass.Constant

/-!
# Expressions

The value of the expression of a conditional, whose macros are expanded and whose tests for definedness are replaced already.
Tokens are read by precedence climbing. Every operand is evaluated, also one whose value cannot matter. An identifier that is left
is zero, except for the two words for truth, and so is a call.
-/

namespace Prepass

namespace Expression

/-- What is left of tokens after at least one has been read. -/
abbrev Shorter (ts : List Token) := { rest : List Token // rest.length < ts.length }

/-- A word and the tokens left after it. -/
abbrev Read (ts : List Token) := Except EvalError (Word × Shorter ts)

/-- Whether a token is the punctuator with the given text. -/
def isPunctuator (v : String) (t : Token) : Bool :=
  t.kind = .punctuator ∧ t.value = v

/-- The unary operator that a token is. -/
def unaryOp? (t : Token) : Option UnaryOp :=
  if t.kind = .punctuator then UnaryOp.ofText? t.value else none

/-- The binary operator that a token is. -/
def binaryOp? (t : Token) : Option BinaryOp :=
  if t.kind = .punctuator then BinaryOp.ofText? t.value else none

/-- The precedence of a unary operator. -/
def unaryPrecedence : Nat := 12

/-- The precedence of the conditional operator. -/
def conditionalPrecedence : Nat := 1

/-- What is left after the given number of open parentheses is closed. -/
def skipGroup : Nat → List Token → Option (List Token)
  | 0, ts => some ts
  | _ + 1, [] => none
  | depth + 1, t :: rest =>
    skipGroup (if t.value = "(" then depth + 2 else if t.value = ")" then depth else depth + 1) rest

theorem length_skipGroup_le {depth : Nat} {ts rest : List Token} (h : skipGroup depth ts = some rest) :
    rest.length ≤ ts.length := by
  induction ts generalizing depth with
  | nil =>
    cases depth with
    | zero => simp_all [skipGroup]
    | succ d => simp [skipGroup] at h
  | cons t ts ih =>
    cases depth with
    | zero => simp_all [skipGroup]
    | succ d =>
      rw [skipGroup] at h
      have := ih h
      simp only [List.length_cons]
      omega

/-- A call: an identifier and a group in parentheses. Its value is zero. -/
def call (ts : List Token) : Read ts :=
  match ts with
  | name :: paren :: rest =>
    if name.kind = .identifier ∧ isPunctuator "(" paren then
      match h : skipGroup 1 rest with
      | some left => .ok (Word.ofInt 0, ⟨left, by have := length_skipGroup_le h; simp only [List.length_cons]; omega⟩)
      | none => .error (.parse .invalidCall)
    else .error (.parse .invalidCall)
  | _ => .error (.parse .invalidCall)

/-- The word of a character constant in an expression: one that is malformed is refused. -/
def characterWord (text : String) : Except EvalError Word :=
  match Constant.character text with
  | .error (.parse _) => .error (.parse (.invalidCharacter text))
  | .error .notNumeral => .error (.parse (.invalidCharacter text))
  | result => result

/-- The word of an identifier that no macro replaced. -/
def identifierWord (name : String) : Word :=
  Word.ofBool (name = "true" ∨ name = "YES")

/-- A constant, a call or an identifier. -/
def term (ts : List Token) : Read ts :=
  match ts with
  | [] => .error (.parse .noTokens)
  | t :: rest =>
    let alone (w : Word) : Word × Shorter (t :: rest) := (w, ⟨rest, by simp⟩)
    if t.kind = .numberLiteral then (Constant.integer t.value).map alone
    else if t.kind = .characterLiteral then (characterWord t.value).map alone
    else match call (t :: rest) with
      | .ok result => .ok result
      | .error _ =>
        if t.kind = .identifier then .ok (alone (identifierWord t.value))
        else .error (.parse .expectedTerm)

/-- The tokens after one punctuator. -/
def expect (v : String) (ts : List Token) : Except EvalError (Shorter ts) :=
  match ts with
  | [] => .error (.parse .noTokens)
  | t :: rest => if isPunctuator v t then .ok ⟨rest, by simp⟩ else .error (.parse (.expectedValue v))

mutual

/-- An operand: a unary operator and its operand, an expression in parentheses, or a term. -/
def primary (ts : List Token) : Read ts :=
  match ts with
  | [] => .error (.parse .noTokens)
  | t :: rest =>
    match unaryOp? t with
    | some op =>
      match expression unaryPrecedence rest with
      | .error e => .error e
      | .ok (w, left) => .ok (op.apply w, ⟨left.1, Nat.lt_succ_of_lt left.2⟩)
    | none =>
      if isPunctuator "(" t then
        match expression 0 rest with
        | .error e => .error e
        | .ok (w, inner) =>
          match expect ")" inner.1 with
          | .error e => .error e
          | .ok left => .ok (w, ⟨left.1, Nat.lt_succ_of_lt (Nat.lt_trans left.2 inner.2)⟩)
      else term (t :: rest)
termination_by (ts.length, 1)

/-- An expression whose operators bind at least as tightly as `least`. -/
def expression (least : Nat) (ts : List Token) : Read ts :=
  match primary ts with
  | .error e => .error e
  | .ok (w, after) =>
    match climb least w after.1 with
    | .error e => .error e
    | .ok (w, left) => .ok (w, ⟨left.1, Nat.lt_of_le_of_lt left.2 after.2⟩)
termination_by (ts.length, 2)
decreasing_by
  · exact Prod.Lex.right _ (by omega)
  · exact Prod.Lex.left _ _ after.2

/-- What the operators that follow a value make of it, as long as they bind at least as tightly as `least`. -/
def climb (least : Nat) (lhs : Word) (ts : List Token) : Except EvalError (Word × { rest : List Token // rest.length ≤ ts.length }) :=
  match ts with
  | [] => .ok (lhs, ⟨[], Nat.le_refl _⟩)
  | t :: rest =>
    if isPunctuator "?" t then
      if conditionalPrecedence < least then .ok (lhs, ⟨t :: rest, Nat.le_refl _⟩)
      else
        match expression 0 rest with
        | .error e => .error e
        | .ok (yes, afterYes) =>
          match expect ":" afterYes.1 with
          | .error e => .error e
          | .ok afterColon =>
            match expression conditionalPrecedence afterColon.1 with
            | .error e => .error e
            | .ok (no, afterNo) =>
              match climb least (if lhs.truth then yes else no) afterNo.1 with
              | .error e => .error e
              | .ok (w, left) =>
                .ok (w, ⟨left.1, by
                  have := left.2; have := afterNo.2; have := afterColon.2; have := afterYes.2
                  simp only [List.length_cons]; omega⟩)
    else
      match binaryOp? t with
      | none => .ok (lhs, ⟨t :: rest, Nat.le_refl _⟩)
      | some op =>
        if op.precedence < least then .ok (lhs, ⟨t :: rest, Nat.le_refl _⟩)
        else
          match expression (op.precedence + 1) rest with
          | .error e => .error e
          | .ok (rhs, afterRhs) =>
            match op.result? lhs rhs with
            | none => .error (.parse .divisionByZero)
            | some result =>
              match climb least result afterRhs.1 with
              | .error e => .error e
              | .ok (w, left) =>
                .ok (w, ⟨left.1, by have := left.2; have := afterRhs.2; simp only [List.length_cons]; omega⟩)
termination_by (ts.length, 0)
decreasing_by
  · exact Prod.Lex.left _ _ (by simp)
  · exact Prod.Lex.left _ _ (by have := afterColon.2; have := afterYes.2; simp only [List.length_cons]; omega)
  · exact Prod.Lex.left _ _ (by
      have := afterNo.2; have := afterColon.2; have := afterYes.2; simp only [List.length_cons]; omega)
  · exact Prod.Lex.left _ _ (by simp)
  · exact Prod.Lex.left _ _ (by have := afterRhs.2; simp only [List.length_cons]; omega)

end

/-- Whether an expression is not zero. It has to take up all the tokens. -/
def evaluate (ts : List Token) : Except EvalError Bool :=
  match expression 0 ts with
  | .error (.parse e) => .error (.parse (.notEvaluated e))
  | .error e => .error e
  | .ok (w, left) =>
    if left.1.isEmpty then .ok w.truth else .error (.parse (.unexpectedTokens (Token.spell left.1)))

end Expression

end Prepass
