import Prepass.Proofs.Outcome
import Prepass.Session.Process

/-!
# Work that keeps a relation of sessions

Two runs of the same work of a session are compared. Single steps respect a relation of sessions that the steps they are made of
respect (`Lasting`); what a session does with names and with directives that are no conditionals is put together from those once and
for all here.
-/

namespace Prepass

/-- Removing a definition is forgotten at the end of the file. -/
theorem Table.clearUser_undefine (t : Table) (name : String) : (t.undefine name).clearUser = t.clearUser := by
  unfold undefine
  split <;> rfl

namespace SessionM

variable {α : Type} {R : Logged Session → Logged Session → Prop}

theorem current_bind (f : Session → SessionM α) (s : Logged Session) : (current >>= f) s = f s.state s := rfl

/-- Work that begins with a look at the session respects a relation when what follows comes to the same. -/
theorem respects_current_bind {f : Session → SessionM α} (h : ∀ s s', R s s' → Matches R (f s.state s) (f s'.state s')) :
    Respects R (current >>= f) :=
  h

/-- An expansion that gives a value gives it to the session. -/
theorem expand_of_ok {work : Expand α} {s : Logged Session} {a : α} {e : Logged Expander}
    (h : work (s.withState s.state.expander) = .ok a e) :
    expand work s = .ok a (e.withState { s.state with expander := e.state }) := by
  unfold expand
  rw [h]

/-- An expansion that stops, stops the session with its fault. -/
theorem expand_of_error {work : Expand α} {s : Logged Session} {cause : ExpandError} {e : Logged Expander}
    (h : work (s.withState s.state.expander) = .error cause e) :
    expand work s = .error (.expand cause) (e.withState { s.state with expander := e.state }) := by
  unfold expand
  rw [h]

/-- A parser that gives a value tells the session what it has to tell. -/
theorem parse_of_ok {p : Parse α} {tokens : List Token} {a : α} {c : Cursor} (h : p { tokens } = .ok a c) (s : Logged Session) :
    parse p tokens s = .ok (.ok a) (s.noteAll c.notices) := by
  unfold parse
  rw [h]

/-- A parser that refuses tells the session what it has to tell, and the session goes on. -/
theorem parse_of_error {p : Parse α} {tokens : List Token} {e : ParseError} {c : Cursor} (h : p { tokens } = .error e c)
    (s : Logged Session) : parse p tokens s = .ok (.error e) (s.noteAll c.notices) := by
  unfold parse
  rw [h]

/-- The place of a token in the file at hand. -/
def placeOf (t : Token) : SessionM Place := do
  return { file := (← current).fileName t, line := t.line }

/-- A relation of sessions that the single steps of a session respect. Include directives may be recorded for the files in `Names`. -/
structure Lasting (files : FileAccess) (Names : String → Prop) (R : Logged Session → Logged Session → Prop) : Prop where
  table_eq {s s' : Logged Session} : R s s' → s.state.table = s'.state.table
  fileName_eq {s s' : Logged Session} (t : Token) : R s s' → s.state.fileName t = s'.state.fileName t
  noteAll (ns : List Notice) : Respects R (noteAll ns)
  head (tokens : List Token) (start : Nat) : Respects R (expand (Expand.head tokens start))
  all (tokens : List Token) : Respects R (expand (Expand.all tokens))
  mapTable (f : Table → Table) (h : ∀ t : Table, (f t).clearUser = t.clearUser) : Respects R (update (Session.mapTable f))
  lookUp (what : Lookup) : Respects R (lookUp files what)
  included (file : String) (h : Names file) (i : Include) :
    Respects R (update fun s => { s with included := IncludeLog.add s.included file i })
  missing (file : String) (h : Names file) (i : Include) :
    Respects R (update fun s => { s with missing := IncludeLog.add s.missing file i })

namespace Lasting

variable {files : FileAccess} {Names : String → Prop}

/-- Telling something lasts. -/
theorem note (hR : Lasting files Names R) (n : Notice) : Respects R (note n) :=
  hR.noteAll [n]

/-- Parsing lasts: it asks nothing of the session. -/
theorem parse (hR : Lasting files Names R) (p : Parse α) (tokens : List Token) : Respects R (parse p tokens) := by
  intro s s' h
  unfold SessionM.parse
  cases p { tokens } with
  | ok a c => exact (hR.noteAll c.notices s s' h).bind fun _ _ _ => .ok _
  | error e c => exact (hR.noteAll c.notices s s' h).bind fun _ _ _ => .ok _

/-- The place of a token is the same in both sessions. -/
theorem placeOf (hR : Lasting files Names R) (t : Token) : Respects R (placeOf t) := by
  refine respects_current_bind fun s s' h => ?_
  rw [hR.fileName_eq t h]
  exact .ok _ h

/-- The value of an expression is the same in both sessions. -/
theorem evaluate (hR : Lasting files Names R) (tokens : List Token) : Respects R (evaluate tokens) := by
  refine respects_current_bind fun s s' h => ?_
  rw [hR.table_eq h]
  cases substituteDefined s'.state.table tokens with
  | error e => exact .error _ h
  | ok substituted =>
    refine (hR.all substituted s s' h).bind fun expanded s₁ s₁' h₁ => ?_
    cases Expression.evaluate expanded with
    | ok b => exact .ok b h₁
    | error e => exact .error _ h₁

/-- A condition is the same in both runs. -/
theorem condition (hR : Lasting files Names R) (expression : List Token) (t : Token) (place : Place) :
    Respects R (condition expression t place) := by
  intro s s' h
  unfold SessionM.condition
  rcases (hR.evaluate expression s s' h).cases with ⟨b, s₁, s₁', heval, heval', h₁⟩ | ⟨e, s₁, s₁', heval, heval', h₁⟩
  · rw [heval, heval']
    exact .ok b h₁
  · rw [heval, heval']
    cases e with
    | eval cause =>
      cases cause with
      | parse e => exact (hR.note _ _ _ h₁).bind fun _ _ _ => .ok true
      | _ => exact .error _ h₁
    | _ => exact .error _ h₁

/-- A name is replaced the same way in both runs. -/
theorem handleName (hR : Lasting files Names R) (tokens : List Token) (start : Nat) (place : Place) :
    Respects R (handleName tokens start place) := by
  refine (hR.head tokens start).bind fun found => ?_
  cases found with
  | none => exact .pure _
  | some e => exact (hR.note _).bind fun _ => .pure _

/-- The path of an include directive is the same in both sessions. -/
theorem includedPath (hR : Lasting files Names R) (body : IncludeBody) : Respects R (includedPath body) := by
  cases body with
  | path p => exact .pure _
  | computed tokens =>
    refine (hR.all tokens).bind fun expanded => (hR.parse _ expanded).bind fun found => ?_
    cases found with
    | ok p => exact .pure _
    | error e => exact .pure _

/-- An include directive is recorded in both sessions, as found or as missing in both. -/
theorem handleInclude (hR : Lasting files Names R) (l : DirectiveLine) (body : IncludeBody) {place : Place}
    (hplace : Names place.file) : Respects R (handleInclude files l body place) := by
  refine (hR.includedPath body).bind fun found => ?_
  cases found with
  | none => exact hR.note _
  | some p =>
    refine (hR.lookUp _).bind fun answer => ?_
    cases answer with
    | none => exact (hR.missing place.file hplace _).bind fun _ => hR.note _
    | some parts => exact hR.included place.file hplace _

/-- A directive that is no conditional is carried out the same way in both runs. -/
theorem carryOut (hR : Lasting files Names R) (l : DirectiveLine) {place : Place} (hplace : Names place.file) :
    Respects R (carryOut files l place) := by
  unfold SessionM.carryOut
  split
  · exact (hR.note _).bind fun _ => hR.mapTable _ fun _ => rfl
  · exact hR.handleInclude l _ hplace
  · exact (hR.note _).bind fun _ => hR.mapTable _ fun t => Table.clearUser_undefine t _
  · exact .pure _

end Lasting

end SessionM

end Prepass
