/-!
# Conditional compilation

The state of the conditionals of one file. While a group is skipped, conditionals inside it are only counted. For every other open
conditional the state keeps whether one of its branches has been active. A branch without an open conditional is judged by whether
tokens are being skipped.
-/

namespace Prepass

/-- The state of the conditionals of a file: whether tokens are skipped, how many conditionals were opened while skipping, the file that
was included, if one was, and for each open conditional, innermost first, whether a branch of it has been active. -/
structure Conditional where
  skipping : Bool := false
  nestedDepth : Nat := 0
  includeFile : Option String := none
  taken : List Bool := []
  deriving DecidableEq, Repr

namespace Conditional

/-- The state inside one more conditional that is only counted. -/
def nest (c : Conditional) : Conditional :=
  { c with nestedDepth := c.nestedDepth + 1 }

/-- The state inside a new conditional whose first branch is active or not. -/
def openBranch (c : Conditional) (active : Bool) : Conditional :=
  { c with taken := active :: c.taken, skipping := !active }

/-- Whether a branch of the innermost conditional has been active. -/
def branchTaken (c : Conditional) : Bool :=
  c.taken.head?.getD (!c.skipping)

/-- The state with the innermost conditional marked when a branch of it becomes active. -/
def mark (c : Conditional) (active : Bool) : Conditional :=
  match c.taken with
  | [] => c
  | t :: outer => { c with taken := (t || active) :: outer }

/-- The state inside a further branch. -/
def enterBranch (c : Conditional) (active : Bool) : Conditional :=
  { c.mark active with skipping := !active }

/-- The state inside a branch that is skipped because an earlier one was active. -/
def skipBranch (c : Conditional) : Conditional :=
  { c with skipping := true }

/-- The state inside the last branch, which is active when no earlier one was. -/
def elseBranch (c : Conditional) : Conditional :=
  { c.mark true with skipping := c.branchTaken }

/-- The state after the end of a conditional. -/
def close (c : Conditional) : Conditional :=
  if 0 < c.nestedDepth then { c with nestedDepth := c.nestedDepth - 1 }
  else { c with skipping := false, taken := c.taken.tail }

/-- The state after the start of a conditional that cannot be parsed: it counts as active. -/
def openMalformed (c : Conditional) : Conditional :=
  if c.skipping then c.nest else c.openBranch true

/-- The state after a further branch that cannot be parsed: it counts as active, unless an earlier one was. -/
def branchMalformed (c : Conditional) : Conditional :=
  if c.nestedDepth ≠ 0 then c
  else if c.branchTaken then c.skipBranch
  else c.enterBranch true

end Conditional

end Prepass
