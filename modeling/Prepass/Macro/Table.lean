import Prepass.Macro
import Prepass.Text.Basic

/-!
# Macro tables

A table maps names to macros in two layers. Predefined macros stay for good. User macros come first and last until the end of a
file, and so does the removal of a predefined macro. Beside the layers a table keeps the names that are disabled, each as
often as it was disabled: a disabled name has no macro.
-/

namespace Prepass

/-- A layer of a table: macros by their names, at most one for each. -/
abbrev Layer := List (String × Macro)

/-- The layer with a macro in place of an earlier one of its name. -/
def Layer.insert (l : Layer) (m : Macro) : Layer :=
  (m.name, m) :: l.filter (·.1 ≠ m.name)

/-- The layer without the macro of a name. -/
def Layer.remove (l : Layer) (name : String) : Layer :=
  l.filter (·.1 ≠ name)

/-- A macro table. -/
structure Table where
  predefined : Layer := []
  user : Layer := []
  undefined : List String := []
  disabled : List String := []
  deriving DecidableEq, Repr

namespace Table

/-- The table with a user macro defined. -/
def define (t : Table) (m : Macro) : Table :=
  { t with user := Layer.insert t.user m, undefined := t.undefined.filter (· ≠ m.name) }

/-- The table with a predefined macro. -/
def predefine (t : Table) (m : Macro) : Table :=
  { t with predefined := Layer.insert t.predefined m }

/-- The table with a macro removed until the end of the file. -/
def undefine (t : Table) (name : String) : Table :=
  let user := Layer.remove t.user name
  if (t.predefined.lookup name).isSome ∧ name ∉ t.undefined then { t with user, undefined := name :: t.undefined }
  else { t with user }

/-- Whether a name is disabled. -/
def isDisabled (t : Table) (name : String) : Bool :=
  name ∈ t.disabled

/-- The macro of a name, unless the name is disabled. -/
def get? (t : Table) (name : String) : Option Macro :=
  if t.isDisabled name then none
  else match t.user.lookup name with
    | some m => some m
    | none => if name ∈ t.undefined then none else t.predefined.lookup name

/-- Whether a name has a macro. -/
def contains (t : Table) (name : String) : Bool :=
  (t.get? name).isSome

/-- The table with a name disabled once more. -/
def disable (t : Table) (name : String) : Table :=
  { t with disabled := name :: t.disabled }

/-- The table with a name disabled once less; the name has to be disabled. -/
def enable? (t : Table) (name : String) : Option Table :=
  if name ∈ t.disabled then some { t with disabled := t.disabled.erase name } else none

/-- Work on the table while a name is disabled. Nothing comes of it when the work leaves the name enabled. -/
def whileDisabled {α : Type} (t : Table) (name : String) (work : Table → α × Table) : Option α × Table :=
  let (a, t') := work (t.disable name)
  match t'.enable? name with
  | some t'' => (some a, t'')
  | none => (none, t')

/-- The table at the start of a file: without user macros and removals. -/
def clearUser (t : Table) : Table :=
  { t with user := [], undefined := [] }

/-- The number of definitions, in both layers. -/
def size (t : Table) : Nat :=
  t.predefined.length + t.user.length

/-- Texts in the order of their characters. -/
def sorted (texts : List String) : List String :=
  texts.mergeSort fun a b => !Text.before b a

/-- The names of the user macros, in order. -/
def userNames (t : Table) : List String :=
  sorted (t.user.map (·.1))

end Table

end Prepass
