import Prepass.Session

/-!
# Conditions

How a session treats the directives of conditional compilation. A condition that cannot be evaluated counts as true, with a notice; a
conditional that cannot be parsed counts as one whose condition is true.
-/

namespace Prepass.SessionM

/-- The name whose definedness is tested after `defined`, and how many tokens the test takes up. -/
def definedName? : List Token → Option (Token × Nat)
  | t :: rest =>
    if t.value = "(" then
      match rest with
      | name :: close :: _ =>
        if t.kind = .punctuator ∧ name.kind = .identifier ∧ close.kind = .punctuator ∧ close.value = ")" then some (name, 3)
        else none
      | _ => none
    else if t.kind = .identifier then some (t, 1)
    else none
  | [] => none

/-- Expression tokens with every test for definedness replaced by one or zero. -/
def substituteDefined (table : Table) : List Token → Except ParseError (List Token)
  | [] => .ok []
  | t :: rest =>
    if t.kind = .identifier ∧ t.value = "defined" then
      match definedName? rest with
      | none => .error .definedNeedsName
      | some (name, length) =>
        let value := if table.contains name.value then "1" else "0"
        let answer : Token :=
          { value, kind := .numberLiteral, line := t.line, column := t.column, uri := t.uri, generated := true }
        (substituteDefined table (rest.drop length)).map (answer :: ·)
    else (substituteDefined table rest).map (t :: ·)
termination_by tokens => tokens.length
decreasing_by
  · simp only [List.length_drop, List.length_cons]; omega
  · simp

/-- Whether the expression of a conditional holds. -/
def evaluate (tokens : List Token) : SessionM Bool := do
  match substituteDefined (← current).table tokens with
  | .error e => throw (.eval (.parse e))
  | .ok substituted =>
    match Expression.evaluate (← expand (Expand.all substituted)) with
    | .ok b => return b
    | .error e => throw (.eval e)

/-- Whether the condition of a directive holds; one that is refused counts as true. -/
def condition (expression : List Token) (t : Token) (place : Place) : SessionM Bool := fun s =>
  match evaluate expression s with
  | .error (.eval (.parse e)) s => .ok true (s.note (.conditionFailed place t.value e.message))
  | result => result

/-- A test whether a macro is defined. -/
def handleIfdef (name : Token) (negated : Bool) (t : Token) (place : Place) : SessionM Unit := do
  let s ← current
  if s.conditional.skipping then updateConditional Conditional.nest
  else
    let active := s.table.contains name.value != negated
    updateConditional (·.openBranch active)
    if !active then note (.conditionFalse place t.value)

/-- A conditional with an expression. -/
def handleIf (expression : List Token) (t : Token) (place : Place) : SessionM Unit := do
  if (← current).conditional.skipping then updateConditional Conditional.nest
  else
    note (.ifReached place t.value)
    let active ← condition expression t place
    updateConditional (·.openBranch active)
    if !active then note (.conditionFalse place t.value)

/-- A further branch with an expression. It is evaluated only when no earlier branch was active, and then tokens are not skipped
meanwhile. -/
def handleElif (expression : List Token) (t : Token) (place : Place) : SessionM Unit := do
  let c := (← current).conditional
  if c.nestedDepth ≠ 0 then return
  if c.branchTaken then
    note (.elifSkipped place)
    updateConditional Conditional.skipBranch
  else
    updateConditional ({ · with skipping := false })
    note (.elifReached place t.value)
    let active ← condition expression t place
    updateConditional (·.enterBranch active)
    if !active then note (.conditionFalse place t.value)

/-- The last branch. -/
def handleElse (place : Place) : SessionM Unit := do
  let c := (← current).conditional
  if c.nestedDepth ≠ 0 then return
  note (if c.branchTaken then .elseSkipped place else .elseTaken place)
  updateConditional Conditional.elseBranch

/-- The end of a conditional. -/
def handleEndif (place : Place) : SessionM Unit := do
  let c := (← current).conditional
  if c.nestedDepth = 0 ∧ c.skipping then note (.endifReached place)
  updateConditional Conditional.close

/-- A directive line that cannot be parsed: one that opens or continues a conditional still counts as such. -/
def handleMalformed (t : Token) : SessionM Unit :=
  match (Token.ofText t.value)[1]? with
  | none => pure ()
  | some keyword =>
    if keyword.value ∈ ["if", "ifdef", "ifndef"] then updateConditional Conditional.openMalformed
    else if keyword.value = "elif" then updateConditional Conditional.branchMalformed
    else pure ()

end Prepass.SessionM
