import Mathlib
import Prepass.Macro.Paste

/-!
# Chains of pasted tokens

The operands of the paste operator are the tokens that are no operators. Operands in a row that have an operator between each two neighbours
make a chain, and pasting leaves one token for each of the longest chains (`paste_chains`): a chain of one operand is left alone, and of a
longer one the texts are joined in the place of its first token. Operators at the start, at the end or in a row make no chain longer than it
is, so the texts of the operands are kept, in order.

Pasting holds the tokens so far, of which the last one may still grow. They are the chains so far with the last one open, which is how the list
of operands is split (`pasteFrom_loop`).
-/

namespace Prepass.Paste

/-- The tokens that are no operators, with their places, which are counted from `start`. -/
def operandsFrom (start : Nat) (tokens : List Token) : List (Token × Nat) :=
  (tokens.zipIdx start).filter fun (t, _) => !isOperator t

/-- Whether an operator stands between two tokens of a list with their places. -/
def operatorBetween (tokens : List Token) (left right : Token × Nat) : Bool :=
  ((tokens.take right.2).drop (left.2 + 1)).any isOperator

/-- The longest chains of operands in a row that have an operator between each two neighbours. -/
def chains (tokens : List Token) : List (List Token) :=
  ((operandsFrom 0 tokens).splitBy (operatorBetween tokens)).map (·.map Prod.fst)

/-- The token that a chain comes to: one token as it is, or the texts of several tokens in the place of the first. -/
def joinChain? : List Token → Option Token
  | [] => none
  | [t] => some t
  | first :: more =>
    some { value := String.join ((first :: more).map Token.value), kind := first.kind, line := first.line, column := first.column,
           uri := first.uri, generated := true, spaced := first.spaced }

section

variable {t joined : Token} {tokens before rest chain latest : List Token} {waiting : Bool}

/-! ## Chains and their texts -/

/-- One more token of a chain is joined to what the chain came to. -/
theorem joinChain?_concat (h : joinChain? chain = some joined) (t : Token) : joinChain? (chain ++ [t]) = some (glue joined t) := by
  cases chain with
  | nil => cases h
  | cons first more =>
    cases more with
    | nil =>
      cases h
      simp [joinChain?, glue]
    | cons second more =>
      cases h
      simp [joinChain?, glue, String.join_append, String.append_assoc]

theorem value_of_joinChain? (h : joinChain? chain = some joined) : joined.value = String.join (chain.map Token.value) := by
  cases chain with
  | nil => cases h
  | cons first more =>
    cases more with
    | nil =>
      cases h
      simp
    | cons second more =>
      cases h
      rfl

theorem operandsFrom_operator (ht : isOperator t = true) (start : Nat) (rest : List Token) :
    operandsFrom start (t :: rest) = operandsFrom (start + 1) rest := by
  simp [operandsFrom, List.zipIdx_cons, ht]

theorem operandsFrom_operand (ht : isOperator t = false) (start : Nat) (rest : List Token) :
    operandsFrom start (t :: rest) = (t, start) :: operandsFrom (start + 1) rest := by
  simp [operandsFrom, List.zipIdx_cons, ht]

theorem map_fst_operandsFrom (start : Nat) (tokens : List Token) :
    (operandsFrom start tokens).map Prod.fst = tokens.filter fun t => !isOperator t := by
  induction tokens generalizing start with
  | nil => rfl
  | cons t rest ih =>
    cases ht : isOperator t with
    | true => rw [operandsFrom_operator ht, ih, List.filter_cons_of_neg (by simp [ht])]
    | false => rw [operandsFrom_operand ht, List.map_cons, ih, List.filter_cons_of_pos (by simp [ht])]

/-- Each operand is in one chain, and the order is kept. -/
theorem flatten_chains (tokens : List Token) : (chains tokens).flatten = tokens.filter fun t => !isOperator t := by
  rw [chains, ← List.map_flatten, List.flatten_splitBy, map_fst_operandsFrom]

/-- What chains come to has their texts. -/
theorem join_values {made : List Token} {groups : List (List Token)} (h : made.map some = groups.map joinChain?) :
    String.join (made.map Token.value) = String.join (groups.flatten.map Token.value) := by
  induction groups generalizing made with
  | nil =>
    obtain rfl := List.map_eq_nil_iff.mp h
    rfl
  | cons chain groups ih =>
    obtain ⟨joined, made, rfl, hjoined, hmade⟩ := List.map_eq_cons_iff.mp h
    rw [List.map_cons, String.join_cons, value_of_joinChain? hjoined.symm, ih hmade, List.flatten_cons, List.map_append, String.join_append]

/-! ## Pasting -/

/-- What a group of operands with their places comes to. -/
def joinGroup? (group : List (Token × Nat)) : Option Token :=
  joinChain? (group.map Prod.fst)

/-- An operator stands between a token before a place and the token at it just when one stands between the token and the place. -/
theorem operatorBetween_append (before rest : List Token) (left : Token × Nat) (t : Token) :
    operatorBetween (before ++ t :: rest) left (t, before.length) = (before.drop (left.2 + 1)).any isOperator := by
  simp [operatorBetween]

theorem any_drop_concat {left : Token × Nat} (h : left.2 < before.length) (t : Token) :
    ((before ++ [t]).drop (left.2 + 1)).any isOperator = ((before.drop (left.2 + 1)).any isOperator || isOperator t) := by
  rw [List.drop_append_of_le_length h, List.any_append]
  simp

/-- The tokens so far are the groups of operands so far, the one that ends with `last` latest; an operator waits when one has come since.
By induction on the tokens that are left. -/
theorem pasteFrom_loop {last : Token × Nat} {group : List (Token × Nat)} {groups : List (List (Token × Nat))}
    (hlast : last.2 < before.length) (hwaiting : waiting = (before.drop (last.2 + 1)).any isOperator)
    (hlatest : latest.map some = ((last :: group).reverse :: groups).map joinGroup?) :
    (pasteFrom latest waiting rest).map some =
      (List.splitBy.loop (operatorBetween (before ++ rest)) (operandsFrom before.length rest) last group groups).map joinGroup? := by
  induction rest generalizing before latest waiting last group groups with
  | nil => rw [pasteFrom, List.map_reverse, hlatest, ← List.map_reverse]; rfl
  | cons t rest ih =>
    have hlength : before.length + 1 = (before ++ [t]).length := by simp
    have htokens : before ++ t :: rest = (before ++ [t]) ++ rest := by simp
    cases ht : isOperator t with
    | true =>
      rw [pasteFrom, if_pos ht, operandsFrom_operator ht, hlength, htokens]
      refine ih (by omega) ?_ hlatest
      rw [any_drop_concat hlast, ht, Bool.or_true]
    | false =>
      have hnone : false = ((before ++ [t]).drop ((t, before.length).2 + 1)).any isOperator := by simp
      rw [pasteFrom, if_neg (by simp [ht]), operandsFrom_operand ht, List.splitBy.loop, operatorBetween_append, ← hwaiting, hlength, htokens]
      cases waiting with
      | true =>
        obtain ⟨joined, earlier, rfl, hjoined, hearlier⟩ := List.map_eq_cons_iff.mp hlatest
        have hgrown : joinGroup? ((t, before.length) :: last :: group).reverse = some (glue joined t) := by
          rw [List.reverse_cons, joinGroup?, List.map_append]
          exact joinChain?_concat hjoined.symm t
        refine ih (by simp) hnone ?_
        rw [glueLatest, List.map_cons, List.map_cons, hgrown, hearlier]
      | false =>
        refine ih (by simp) hnone ?_
        rw [List.map_cons, hlatest]
        rfl

/-- Before the first operand there are no chains, and an operator has nothing to wait for. -/
theorem pasteFrom_nil (before rest : List Token) (waiting : Bool) :
    (pasteFrom [] waiting rest).map some =
      ((operandsFrom before.length rest).splitBy (operatorBetween (before ++ rest))).map joinGroup? := by
  induction rest generalizing before waiting with
  | nil => rfl
  | cons t rest ih =>
    have hlength : before.length + 1 = (before ++ [t]).length := by simp
    have htokens : before ++ t :: rest = (before ++ [t]) ++ rest := by simp
    cases ht : isOperator t with
    | true =>
      rw [pasteFrom, if_pos ht, operandsFrom_operator ht, hlength, htokens]
      exact ih (before ++ [t]) true
    | false =>
      rw [pasteFrom, if_neg (by simp [ht]), operandsFrom_operand ht, List.splitBy, hlength, htokens, glueLatest, ite_self]
      exact pasteFrom_loop (by simp) (by simp) rfl

/-- Pasting leaves one token for each chain of operands, in order: the operand that is alone in its chain, or the texts of the chain in the
place of its first token. All operands are in the chains, so their texts are kept. -/
theorem paste_chains (tokens : List Token) :
    (paste tokens).map some = (chains tokens).map joinChain? ∧
    (chains tokens).flatten = (tokens.filter fun t => !isOperator t) ∧
    String.join ((paste tokens).map Token.value) = String.join ((tokens.filter fun t => !isOperator t).map Token.value) := by
  have hpaste : (paste tokens).map some = (chains tokens).map joinChain? := by
    rw [paste, pasteFrom_nil [] tokens false, chains, List.map_map]
    rfl
  refine ⟨hpaste, flatten_chains tokens, ?_⟩
  rw [join_values hpaste, flatten_chains]

end

example : (chains (["##", "x", "a", "##", "##", "b", "y", "##"].map fun v => { value := v, kind := .identifier })).map (·.map Token.value) =
    [["x"], ["a", "b"], ["y"]] := by decide

end Prepass.Paste
