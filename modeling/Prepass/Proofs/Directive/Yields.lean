import Mathlib
import Prepass.Proofs.Directive.Definition

/-!
# What parsing comes to

Parsing depends on the tokens that are left, not on what was read before. So what it comes to can be said of these tokens alone: a value and
the tokens left after it, or a refusal (`Parse.Yields`). Each step of parsing has one such fact, for when it succeeds and for when it does
not, and they compose (`Parse.Yields.bind`, `Parse.Yields.bind_error`).
-/

namespace Prepass

namespace Parse

/-- What parsing comes to: the value and the tokens that are left, or the refusal. -/
def outcome {α : Type} : EStateM.Result ParseError Cursor α → Except ParseError (α × List Token)
  | .ok a c => .ok (a, c.rest)
  | .error e _ => .error e

/-- Where the tokens `ts` are left, parsing comes to `r`. -/
def Yields {α : Type} (p : Parse α) (ts : List Token) (r : Except ParseError (α × List Token)) : Prop :=
  ∀ c : Cursor, c.rest = ts → outcome (p c) = r

section

variable {α β : Type} {p : Parse α} {f : α → Parse β} {ts rest : List Token} {a : α} {e : ParseError} {c : Cursor}

/-- Where the tokens are left, a parser that yields a value gives it, and leaves what it is said to leave. -/
theorem Yields.exists_ok (h : Yields p ts (.ok (a, rest))) (hc : c.rest = ts) : ∃ c', p c = .ok a c' ∧ c'.rest = rest := by
  have hout := h c hc
  cases hs : p c with
  | ok b c' =>
    rw [hs] at hout
    cases hout
    exact ⟨c', rfl, rfl⟩
  | error e c' =>
    rw [hs] at hout
    cases hout

/-- Where the tokens are left, a parser that yields a refusal refuses them. -/
theorem Yields.exists_error (h : Yields p ts (.error e)) (hc : c.rest = ts) : ∃ c', p c = .error e c' := by
  have hout := h c hc
  cases hs : p c with
  | ok b c' =>
    rw [hs] at hout
    cases hout
  | error e' c' =>
    rw [hs] at hout
    cases hout
    exact ⟨c', rfl⟩

/-! ## One after the other -/

/-- A value is given without reading. -/
theorem yields_pure (a : α) (ts : List Token) : Yields (pure a) ts (.ok (a, ts)) := by
  rintro c rfl
  rfl

/-- A refusal reads nothing. -/
theorem yields_throw (e : ParseError) (ts : List Token) : Yields (throw e : Parse α) ts (.error e) := by
  intro c _
  rfl

/-- After a value the next parser goes on with what is left. -/
theorem Yields.bind (hp : Yields p ts (.ok (a, rest))) {r : Except ParseError (β × List Token)} (hf : Yields (f a) rest r) :
    Yields (p >>= f) ts r := by
  intro c hc
  obtain ⟨c', hs, hrest⟩ := hp.exists_ok hc
  rw [bind_of_ok hs]
  exact hf c' hrest

/-- After a refusal no other parser is asked. -/
theorem Yields.bind_error (hp : Yields p ts (.error e)) : Yields (p >>= f) ts (.error e) := by
  intro c hc
  obtain ⟨c', hs⟩ := hp.exists_error hc
  rw [bind_of_error hs]
  rfl

/-- A value stays when all tokens have to be read. -/
theorem Yields.whole (hp : Yields p ts (.ok (a, rest))) (e : ParseError) : Yields (Parse.whole p e) ts (.ok (a, rest)) := by
  intro c hc
  obtain ⟨c', hs, rfl⟩ := hp.exists_ok hc
  unfold Parse.whole
  rw [hs]
  rfl

/-- So does a refusal. -/
theorem Yields.whole_error (hp : Yields p ts (.error e)) (e' : ParseError) : Yields (Parse.whole p e') ts (.error e') := by
  intro c hc
  obtain ⟨c', hs⟩ := hp.exists_error hc
  unfold Parse.whole
  rw [hs]
  rfl

/-- A value is there where it is optional. -/
theorem Yields.optional (hp : Yields p ts (.ok (a, rest))) : Yields (Parse.optional p) ts (.ok (some a, rest)) := by
  intro c hc
  obtain ⟨c', hs, rfl⟩ := hp.exists_ok hc
  unfold Parse.optional
  rw [hs]
  rfl

/-- Where work is refused the place is set back to where it was. -/
theorem Yields.optional_error (hp : Yields p ts (.error e)) (htokens : ∀ c, (stateAfter (p c)).tokens = c.tokens) :
    Yields (Parse.optional p) ts (.ok (none, ts)) := by
  rintro c rfl
  have hsame := htokens c
  obtain ⟨c', hs⟩ := hp.exists_error rfl
  rw [hs] at hsame
  unfold Parse.optional
  rw [hs]
  exact congrArg (fun tokens : List Token => Except.ok (none, tokens.drop c.pos)) hsame

end

/-! ## Single steps -/

section

variable {ts : List Token} {test : Token → Bool} {t : Token} {e : ParseError}

/-- A token that passes the test is read. -/
theorem yields_token (htest : test t = true) (e : ParseError) (rest : List Token) :
    Yields (token test e) (t :: rest) (.ok (t, rest)) := by
  intro c hc
  unfold token
  rw [c.peek?_eq_head?, hc, List.head?_cons]
  dsimp only
  rw [if_pos htest, outcome, c.rest_advance, hc]
  rfl

/-- A token that does not pass the test is refused. -/
theorem yields_token_error (htest : test t = false) (e : ParseError) (rest : List Token) :
    Yields (token test e) (t :: rest) (.error e) := by
  intro c hc
  unfold token
  rw [c.peek?_eq_head?, hc, List.head?_cons]
  dsimp only
  rw [if_neg (by simp [htest]), outcome]

/-- Where no token is left, none is read. -/
theorem yields_token_nil (test : Token → Bool) (e : ParseError) : Yields (token test e) [] (.error .noTokens) := by
  intro c hc
  unfold token
  rw [c.peek?_eq_head?, hc]
  rfl

/-- Looking at the next token leaves it. -/
theorem yields_peek (t : Token) (rest : List Token) : Yields peek (t :: rest) (.ok (t, t :: rest)) := by
  intro c hc
  unfold peek
  rw [c.peek?_eq_head?, hc, List.head?_cons]
  exact congrArg (fun left => Except.ok (t, left)) hc

/-- There is no next token where none is left. -/
theorem yields_peek_nil : Yields peek [] (.error .noTokens) := by
  intro c hc
  unfold peek
  rw [c.peek?_eq_head?, hc]
  rfl

/-- The end is where no token is left. -/
theorem yields_atEnd (ts : List Token) : Yields atEnd ts (.ok (ts.isEmpty, ts)) := by
  rintro c rfl
  unfold atEnd
  rw [c.atEnd_eq_isEmpty]
  rfl

/-- All that is left can be taken up. -/
theorem yields_takeRest (ts : List Token) : Yields takeRest ts (.ok (ts, [])) := by
  rintro c rfl
  unfold takeRest
  rw [outcome, c.rest_toEnd]

/-- Parameters are read up to where reading them ends. -/
theorem yields_someParameters {found : List Token × Option Token} {read : Nat} (h : parameters [] ts = (.ok found, read)) :
    Yields someParameters ts (.ok (found, ts.drop read)) := by
  rintro c rfl
  unfold someParameters
  rw [h]
  exact congrArg (fun left => Except.ok (found, left)) (c.rest_advance read)

/-- Parameters are refused where reading them is. -/
theorem yields_someParameters_error {read : Nat} (h : parameters [] ts = (.error e, read)) : Yields someParameters ts (.error e) := by
  rintro c rfl
  unfold someParameters
  rw [h]
  rfl

end

end Parse

end Prepass
