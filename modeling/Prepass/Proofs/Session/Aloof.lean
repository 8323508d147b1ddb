import Prepass.Proofs.Session.Respects

/-!
# Work that leaves conditionals alone

Beside the included file, nothing that a session does with names, conditions and directives that are no conditionals looks at the state
of the conditionals, and nothing of it changes that state or a saved one (`Aloof`). Such work comes to the same wherever it stands
in a source.
-/

namespace Prepass

/-- The session with another state of conditionals, and perhaps other saved ones. -/
def Session.judged (s : Session) (c : Conditional) (saved : List Conditional := s.saved) : Session :=
  { s with conditional := c, saved }

namespace Logged

/-- The same notices with another state of conditionals. -/
def judged (s : Logged Session) (c : Conditional) (saved : List Conditional := s.state.saved) : Logged Session :=
  { s with state := s.state.judged c saved }

@[simp]
theorem conditional_judged (s : Logged Session) (c : Conditional) (saved : List Conditional) :
    (s.judged c saved).state.conditional = c := rfl

@[simp]
theorem state_noteAll (s : Logged Session) (ns : List Notice) : (s.noteAll ns).state = s.state := rfl

@[simp]
theorem state_note (s : Logged Session) (n : Notice) : (s.note n).state = s.state := rfl

end Logged

namespace SessionM

/-- The first session is the second with the given states of conditionals; the included file is the same. -/
def Beside (c : Conditional) (saved : List Conditional) (s s' : Logged Session) : Prop :=
  s = s'.judged c saved ∧ c.includeFile = s'.state.conditional.includeFile

/-- Work that neither changes the states of the conditionals nor looks at them, but for the included file. -/
def Aloof {α : Type} (w : SessionM α) : Prop :=
  ∀ c saved, Respects (Beside c saved) w

/-- An expansion sees only the expander of a session. -/
theorem respects_expand {α : Type} (work : Expand α) (c : Conditional) (saved : List Conditional) :
    Respects (Beside c saved) (expand work) := by
  rintro s s' ⟨rfl, hfile⟩
  have hwork : work ((s'.judged c saved).withState (s'.judged c saved).state.expander) = work (s'.withState s'.state.expander) := rfl
  unfold expand
  rw [hwork]
  cases work (s'.withState s'.state.expander) with
  | ok a e => exact .ok a ⟨rfl, hfile⟩
  | error cause e => exact .error _ ⟨rfl, hfile⟩

/-- Looking a file up, remembered or not, reads and writes nothing of the conditionals. -/
theorem respects_lookUp (files : FileAccess) (what : Lookup) (c : Conditional) (saved : List Conditional) :
    Respects (Beside c saved) (lookUp files what) := by
  rintro s s' ⟨rfl, hfile⟩
  have hlookups : (s'.judged c saved).state.lookups = s'.state.lookups := rfl
  unfold lookUp
  rw [hlookups]
  cases s'.state.lookups.lookup what with
  | some answer => exact .ok answer ⟨rfl, hfile⟩
  | none => exact .ok _ ⟨rfl, hfile⟩

/-- Single steps of a session are aloof. -/
theorem lasting_beside (files : FileAccess) (c : Conditional) (saved : List Conditional) :
    Lasting files (fun _ => True) (Beside c saved) where
  table_eq := by
    rintro s s' ⟨rfl, -⟩
    rfl
  fileName_eq := by
    rintro s s' t ⟨rfl, hfile⟩
    simp only [Session.fileName, Session.fileUnderAnalysis, Logged.conditional_judged, hfile]
    rfl
  noteAll := by
    rintro ns s s' ⟨rfl, hfile⟩
    exact .ok () ⟨rfl, hfile⟩
  head tokens start := respects_expand (Expand.head tokens start) c saved
  all tokens := respects_expand (Expand.all tokens) c saved
  mapTable := by
    rintro f - s s' ⟨rfl, hfile⟩
    exact .ok () ⟨rfl, hfile⟩
  lookUp what := respects_lookUp files what c saved
  included := by
    rintro file - i s s' ⟨rfl, hfile⟩
    exact .ok () ⟨rfl, hfile⟩
  missing := by
    rintro file - i s s' ⟨rfl, hfile⟩
    exact .ok () ⟨rfl, hfile⟩

namespace Aloof

variable {α β : Type} {w : SessionM α} {f : α → SessionM β}

/-- A result alone stays aloof. -/
theorem pure (a : α) : Aloof (Pure.pure a : SessionM α) :=
  fun _ _ => .pure a

/-- Steps that stay aloof stay so one after the other. -/
theorem bind (hw : Aloof w) (hf : ∀ a, Aloof (f a)) : Aloof (w >>= f) :=
  fun c saved => (hw c saved).bind fun a => hf a c saved

/-- Aloof work leaves the states of conditionals as they are. -/
theorem state_eq (hw : Aloof w) (s : Logged Session) :
    (stateAfter (w s)).state.conditional = s.state.conditional ∧ (stateAfter (w s)).state.saved = s.state.saved := by
  have hmatch := hw s.state.conditional s.state.saved s s ⟨rfl, rfl⟩
  rcases hmatch.cases with ⟨a, s₁, s₂, hs, hs', hR⟩ | ⟨e, s₁, s₂, hs, hs', hR⟩
  · cases hs.symm.trans hs'
    rw [hs]
    exact ⟨congrArg (·.state.conditional) hR.1, congrArg (·.state.saved) hR.1⟩
  · cases hs.symm.trans hs'
    rw [hs]
    exact ⟨congrArg (·.state.conditional) hR.1, congrArg (·.state.saved) hR.1⟩

/-- Work that stays aloof leaves the conditional as it found it. -/
theorem conditional_of_ok (hw : Aloof w) {s s' : Logged Session} {a : α} (h : w s = .ok a s') :
    s'.state.conditional = s.state.conditional := by
  have := (hw.state_eq s).1
  rwa [h] at this

/-- Aloof work that gives a value gives it beside any other state of conditionals, too. -/
theorem ok_judged (hw : Aloof w) {s s' : Logged Session} {a : α} (h : w s = .ok a s') {c : Conditional}
    (hc : c.includeFile = s.state.conditional.includeFile) : w (s.judged c) = .ok a (s'.judged c) := by
  have hsaved := (hw.state_eq s).2
  rw [h, stateAfter_ok] at hsaved
  have hmatch := hw c s.state.saved (s.judged c) s ⟨rfl, hc⟩
  rcases hmatch.cases with ⟨a', s₁, s₂, hs, hs', hR⟩ | ⟨e, s₁, s₂, hs, hs', hR⟩
  · cases hs'.symm.trans h
    rw [hs, hR.1, hsaved]
  · nomatch hs'.symm.trans h

/-- Aloof work that stops at a fault stops at it beside any other state of conditionals, too. -/
theorem error_judged (hw : Aloof w) {s s' : Logged Session} {e : Fault} (h : w s = .error e s') {c : Conditional}
    (hc : c.includeFile = s.state.conditional.includeFile) : ∃ s'', w (s.judged c) = .error e s'' := by
  have hmatch := hw c s.state.saved (s.judged c) s ⟨rfl, hc⟩
  rcases hmatch.cases with ⟨a, s₁, s₂, hs, hs', hR⟩ | ⟨e', s₁, s₂, hs, hs', hR⟩
  · nomatch hs'.symm.trans h
  · cases hs'.symm.trans h
    exact ⟨s₁, hs⟩

end Aloof

end SessionM

end Prepass
