import Prepass.Text.Basic
import Prepass.Text.Quoted

/-!
# Stringizing

The body of a string literal that spells a text. Double quotes and backslashes are escaped. Outside the literals of the text a run of
blanks becomes one space, and blanks at the start, at the end and after a backslash vanish; inside literals blanks are kept.
-/

namespace Prepass.Stringize

/-- What becomes of blanks at a place between literals: they vanish, they may become a space, or a space is due. -/
inductive Gap where
  | none
  | possible
  | due
  deriving DecidableEq, Repr

/-- Where a place is: between literals, or inside one, perhaps after a backslash. -/
inductive Context where
  | outside (gap : Gap)
  | inside (quote : Char) (escaped : Bool)
  deriving DecidableEq, Repr

/-- The gap after a blank. -/
def Gap.blank : Gap → Gap
  | .none => .none
  | _ => .due

/-- A character in a string literal. -/
def escape (c : Char) : List Char :=
  if c = '"' ∨ c = '\\' then ['\\', c] else [c]

/-- The place after a character inside a literal. -/
def afterInside (quote : Char) (escaped : Bool) (c : Char) : Context :=
  if escaped then .inside quote false
  else if c = '\\' then .inside quote true
  else if c = quote then .outside .possible
  else .inside quote false

/-- The place after a character between literals that is not blank. -/
def afterOutside (c : Char) : Context :=
  if c = '"' ∨ c = Text.apostrophe then .inside c false
  else if c = '\\' then .outside .none
  else .outside .possible

/-- The body of a literal that spells the text from a place on. -/
def bodyFrom : Context → List Char → List Char
  | _, [] => []
  | .inside quote escaped, c :: rest => escape c ++ bodyFrom (afterInside quote escaped c) rest
  | .outside gap, c :: rest =>
    if Text.isBlank c then bodyFrom (.outside gap.blank) rest
    else (if gap = .due then [' '] else []) ++ escape c ++ bodyFrom (afterOutside c) rest

/-- The body of a string literal that spells a text. -/
def body (text : String) : String :=
  String.ofList (bodyFrom (.outside .none) text.toList)

/-- The string literal that spells a text. -/
def literal (text : String) : String :=
  "\"" ++ body text ++ "\""

end Prepass.Stringize
