import Prepass.Token

/-!
# Arguments

The argument list at the head of a list of tokens: groups of tokens in parentheses, with commas between. Commas inside inner
parentheses do not count, and an empty group is no argument. Each argument is one token that holds its text.
-/

namespace Prepass.Arguments

/-- What stands at the head of a list of tokens: no parenthesis, one that is not closed, or an argument list of so many tokens,
both parentheses included. -/
inductive Found where
  | absent
  | unclosed
  | list (consumed : Nat) (arguments : List Token)
  deriving DecidableEq, Repr

/-- The argument that a group of tokens is, if it is not empty. -/
def ofGroup : List Token → List Token
  | [] => []
  | first :: rest =>
    [{ value := Text.strip (Token.spell (first :: rest)), kind := .stringLiteral, line := first.line, column := first.column,
       uri := first.uri, generated := true }]

/-- The argument list that goes on after `consumed` tokens, with the arguments and the group so far, both latest first, and the depth of
inner parentheses. The tokens end before one that satisfies `stop`. -/
def readFrom (stop : Token → Bool) (consumed : Nat) (arguments group : List Token) (depth : Nat) : List Token → Found
  | [] => .unclosed
  | t :: rest =>
    if stop t then .unclosed
    else if depth = 0 ∧ t.value = ")" then .list (consumed + 1) (ofGroup group.reverse ++ arguments).reverse
    else if depth = 0 ∧ t.value = "," then readFrom stop (consumed + 1) (ofGroup group.reverse ++ arguments) [] 0 rest
    else
      let depth := if t.value = "(" then depth + 1 else if t.value = ")" then depth - 1 else depth
      readFrom stop (consumed + 1) arguments (t :: group) depth rest

/-- The argument list at the head of a list of tokens, which ends before one that satisfies `stop`. -/
def read (stop : Token → Bool) : List Token → Found
  | [] => .absent
  | t :: rest => if !stop t && t.value = "(" then readFrom stop 1 [] [] 0 rest else .absent

/-- The arguments for the given number of parameters: those beyond the last are joined to the one for it, with commas between. -/
def fold (params : Nat) (arguments : List Token) : List Token :=
  if arguments.length ≤ params then arguments
  else match arguments.drop (params - 1) with
    | [] => arguments
    | first :: more => arguments.take (params - 1) ++ [{ first with value := Token.spell (first :: more) "," }]

end Prepass.Arguments
