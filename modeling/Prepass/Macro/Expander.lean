import Prepass.Macro.Table

/-!
# Expanders

An expander is a macro table, a ceiling for nested expansion and the level it is at. Work on an expander gives a value or a fault;
in both cases the table, the level and the notices are as the work left them.
-/

namespace Prepass

/-- Why an expansion stops: it nests too deeply, a name is to be enabled that is not disabled, more tokens are to be consumed than there
are, a token is to be dropped where none is, or more replacements are open than there are macros. -/
inductive ExpandError where
  | tooDeep
  | notDisabled (name : String)
  | pastEnd
  | nothingToDrop
  | tooManyFrames
  deriving DecidableEq, Repr

/-- A macro table with a ceiling for nested expansion and the level reached. -/
structure Expander where
  table : Table := {}
  maxLevel : Int := 200
  level : Int := 0
  deriving DecidableEq, Repr

/-- Work on an expander. -/
abbrev Expand := EStateM ExpandError (Logged Expander)

namespace Expander

/-- The expander with another table. -/
def withTable (e : Expander) (t : Table) : Expander :=
  { e with table := t }

/-- The expander one level further in. -/
def enter (e : Expander) : Expander :=
  { e with level := e.level + 1 }

/-- The expander one level further out. -/
def leave (e : Expander) : Expander :=
  { e with level := e.level - 1 }

end Expander

namespace Expand

/-- Gives a notice. -/
def note (n : Notice) : Expand Unit := fun s =>
  .ok () (s.note n)

/-- Disables a name. -/
def disable (name : String) : Expand Unit := fun s =>
  .ok () { s with state := s.state.withTable (s.state.table.disable name) }

/-- Enables a name, which has to be disabled. -/
def enable (name : String) : Expand Unit := fun s =>
  match s.state.table.enable? name with
  | some t => .ok () { s with state := s.state.withTable t }
  | none => .error (.notDisabled name) s

/-- Enables several names, one after another. -/
def enableAll : List String → Expand Unit
  | [] => pure ()
  | name :: rest => do
    enable name
    enableAll rest

end Expand

end Prepass
