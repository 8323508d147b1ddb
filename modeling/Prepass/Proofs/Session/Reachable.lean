import Prepass.Proofs.Session.Aloof

/-!
# Sessions that can be reached

A session starts from settings and goes on by defining macros, starting and ending files, saving and restoring the state of conditionals
and processing tokens (`Session.Reachable`). In every session that is reached so, inner conditionals are counted only while tokens are
skipped, also in the saved states (`Session.Reachable.sound`).
-/

namespace Prepass

/-- Inner conditionals are counted only while tokens are skipped. -/
def Conditional.Sound (c : Conditional) : Prop :=
  0 < c.nestedDepth → c.skipping = true

namespace Conditional

variable {c : Conditional}

/-- When no inner conditional is counted, nothing can be counted at the wrong time. -/
theorem sound_of_depth (h : c.nestedDepth = 0) : c.Sound := by
  intro hpos
  omega

/-- While tokens are processed, no inner conditional is counted. -/
theorem Sound.depth (h : c.Sound) (hskip : c.skipping = false) : c.nestedDepth = 0 := by
  cases hdepth : c.nestedDepth with
  | zero => rfl
  | succ n =>
    have hskip' := h (by omega)
    rw [hskip] at hskip'
    nomatch hskip'

/-- An inner conditional may be counted while tokens are skipped. -/
theorem sound_nest (hskip : c.skipping = true) : c.nest.Sound :=
  fun _ => hskip

/-- Closing a conditional keeps the count right: it uncounts an inner one, or closes the one that is open. -/
theorem Sound.close (h : c.Sound) : c.close.Sound := by
  unfold Conditional.close
  split
  · rename_i hdepth
    exact fun _ => h hdepth
  · exact sound_of_depth (by simp only; omega)

/-- Opening a malformed conditional keeps the count right. -/
theorem Sound.openMalformed (h : c.Sound) : c.openMalformed.Sound := by
  unfold Conditional.openMalformed
  split
  · rename_i hskip
    exact sound_nest hskip
  · rename_i hskip
    exact sound_of_depth (h.depth (by simpa using hskip))

/-- Recording whether a branch was taken counts nothing. -/
theorem nestedDepth_mark (c : Conditional) (active : Bool) : (c.mark active).nestedDepth = c.nestedDepth := by
  unfold mark
  split <;> rfl

/-- A malformed branch keeps the count right. -/
theorem Sound.branchMalformed (h : c.Sound) : c.branchMalformed.Sound := by
  unfold Conditional.branchMalformed
  split
  · exact h
  · rename_i hdepth
    have hzero : c.nestedDepth = 0 := by omega
    split
    · exact sound_of_depth hzero
    · exact sound_of_depth ((nestedDepth_mark c true).trans hzero)

end Conditional

namespace SessionM

variable {α β : Type} {P : Conditional → Prop}

/-- Work that keeps a property of the state of conditionals and leaves the saved states alone, whatever it comes to. -/
def Keeps (P : Conditional → Prop) (w : SessionM α) : Prop :=
  ∀ s, P s.state.conditional → P (stateAfter (w s)).state.conditional ∧ (stateAfter (w s)).state.saved = s.state.saved

namespace Keeps

variable {w : SessionM α} {f : α → SessionM β}

/-- Work in which conditionals have no part keeps any property of their state. -/
theorem of_aloof (h : Aloof w) : Keeps P w := by
  intro s hs
  obtain ⟨hcond, hsaved⟩ := h.state_eq s
  exact ⟨hcond ▸ hs, hsaved⟩

/-- Work in a row keeps what each part of it keeps. -/
theorem bind (hw : Keeps P w) (hf : ∀ a, Keeps P (f a)) : Keeps P (w >>= f) := by
  intro s hs
  obtain ⟨hP, hsaved⟩ := hw s hs
  cases hx : w s with
  | ok a s₁ =>
    rw [hx, stateAfter_ok] at hP hsaved
    rw [bind_of_ok hx]
    obtain ⟨hP', hsaved'⟩ := hf a s₁ hP
    exact ⟨hP', hsaved'.trans hsaved⟩
  | error e s₁ =>
    rw [hx] at hP hsaved
    rw [bind_of_error hx]
    exact ⟨hP, hsaved⟩

/-- A change of the state keeps what it keeps in each state. -/
theorem update {g : Conditional → Conditional} (hg : ∀ c, P c → P (g c)) : Keeps P (updateConditional g) :=
  fun _ hs => ⟨hg _ hs, rfl⟩

end Keeps

/-- Work that keeps the count of inner conditionals at zero keeps a state sound when it starts there. -/
theorem sound_of_zero {w : SessionM α} (h : Keeps (·.nestedDepth = 0) w) {s : Logged Session}
    (hzero : s.state.conditional.nestedDepth = 0) :
    (stateAfter (w s)).state.conditional.Sound ∧ (stateAfter (w s)).state.saved = s.state.saved := by
  obtain ⟨hdepth, hsaved⟩ := h s hzero
  exact ⟨Conditional.sound_of_depth hdepth, hsaved⟩

/-- Telling something changes nothing of conditionals. -/
theorem keeps_note (n : Notice) : Keeps P (note n) :=
  .of_aloof fun c saved => (lasting_beside {} c saved).note n

/-- A condition is evaluated without looking at conditionals. -/
theorem keeps_condition (expression : List Token) (t : Token) (place : Place) : Keeps P (condition expression t place) :=
  .of_aloof fun c saved => (lasting_beside {} c saved).condition expression t place

theorem keeps_noteUnless (active : Bool) (n : Notice) : Keeps P (if !active then note n else pure ()) := by
  cases active with
  | true => exact .of_aloof (.pure _)
  | false => exact keeps_note n

/-- Opening a conditional counts no inner one. -/
theorem keeps_openBranch (active : Bool) : Keeps (·.nestedDepth = 0) (updateConditional (·.openBranch active)) :=
  .update fun _ h => h

/-- Coming to a further branch counts no inner conditional. -/
theorem keeps_enterBranch (active : Bool) : Keeps (·.nestedDepth = 0) (updateConditional (·.enterBranch active)) :=
  .update fun c h => (Conditional.nestedDepth_mark c active).trans h

/-- A directive that asks for a name opens a conditional, or counts an inner one while tokens are skipped. -/
theorem keeps_handleIfdef (name : Token) (negated : Bool) (t : Token) (place : Place) :
    Keeps Conditional.Sound (handleIfdef name negated t place) := by
  intro s hs
  unfold handleIfdef
  rw [current_bind]
  split
  · rename_i hskip
    exact ⟨Conditional.sound_nest hskip, rfl⟩
  · rename_i hskip
    refine sound_of_zero ?_ (hs.depth (by simpa using hskip))
    exact (keeps_openBranch _).bind fun _ => keeps_noteUnless _ _

/-- An if directive opens a conditional, or counts an inner one while tokens are skipped. -/
theorem keeps_handleIf (expression : List Token) (t : Token) (place : Place) :
    Keeps Conditional.Sound (handleIf expression t place) := by
  intro s hs
  unfold handleIf
  rw [current_bind]
  split
  · rename_i hskip
    exact ⟨Conditional.sound_nest hskip, rfl⟩
  · rename_i hskip
    refine sound_of_zero ?_ (hs.depth (by simpa using hskip))
    refine (keeps_note _).bind fun _ => (keeps_condition expression t place).bind fun active => ?_
    exact (keeps_openBranch active).bind fun _ => keeps_noteUnless active _

/-- An elif directive is a further branch, unless it belongs to an inner conditional. -/
theorem keeps_handleElif (expression : List Token) (t : Token) (place : Place) :
    Keeps Conditional.Sound (handleElif expression t place) := by
  intro s hs
  unfold handleElif
  rw [current_bind]
  split
  · exact ⟨hs, rfl⟩
  · rename_i hdepth
    refine sound_of_zero ?_ (Decidable.not_not.mp hdepth)
    split
    · exact (keeps_note _).bind fun _ => Keeps.update fun _ h => h
    · have hlooking : Keeps (·.nestedDepth = 0) (updateConditional ({ · with skipping := false })) := .update fun _ h => h
      refine hlooking.bind fun _ => (keeps_note _).bind fun _ => (keeps_condition expression t place).bind fun active => ?_
      exact (keeps_enterBranch active).bind fun _ => keeps_noteUnless active _

/-- An else directive is the last branch, unless it belongs to an inner conditional. -/
theorem keeps_handleElse (place : Place) : Keeps Conditional.Sound (handleElse place) := by
  intro s hs
  unfold handleElse
  rw [current_bind]
  split
  · exact ⟨hs, rfl⟩
  · rename_i hdepth
    refine sound_of_zero ?_ (Decidable.not_not.mp hdepth)
    exact (keeps_note _).bind fun _ => Keeps.update fun c h => (Conditional.nestedDepth_mark c true).trans h

/-- An endif directive closes the conditional, or uncounts an inner one. -/
theorem keeps_handleEndif (place : Place) : Keeps Conditional.Sound (handleEndif place) := by
  have hclose : Keeps Conditional.Sound (updateConditional Conditional.close) := .update fun _ h => h.close
  intro s hs
  unfold handleEndif
  rw [current_bind]
  split
  · exact ((keeps_note _).bind fun _ => hclose) s hs
  · exact hclose s hs

/-- A directive that cannot be parsed counts as the conditional that its keyword asks for. -/
theorem keeps_handleMalformed (t : Token) : Keeps Conditional.Sound (handleMalformed t) := by
  unfold handleMalformed
  split
  · exact .of_aloof (.pure _)
  · split
    · exact .update fun _ h => h.openMalformed
    · split
      · exact .update fun _ h => h.branchMalformed
      · exact .of_aloof (.pure _)

/-- A directive line keeps the count right. -/
theorem keeps_handleLine (files : FileAccess) (l : DirectiveLine) (t : Token) (place : Place) :
    Keeps Conditional.Sound (handleLine files l t place) := by
  have hcarry : Keeps Conditional.Sound (carryOut files l place) :=
    .of_aloof fun c saved => (lasting_beside files c saved).carryOut l trivial
  unfold handleLine
  split
  · exact keeps_handleIfdef _ _ t place
  · exact keeps_handleElse place
  · exact keeps_handleEndif place
  · exact keeps_handleElif _ t place
  · exact keeps_handleIf _ t place
  · intro s hs
    rw [current_bind]
    split
    · exact ⟨hs, rfl⟩
    · exact hcarry s hs

/-- So does a directive token, whether or not it can be parsed. -/
theorem keeps_handleDirective (files : FileAccess) (t : Token) (place : Place) :
    Keeps Conditional.Sound (handleDirective files t place) := by
  have hparse : Aloof (parse Parse.directiveLine (Token.ofText t.value t.line t.uri)) :=
    fun c saved => (lasting_beside files c saved).parse _ _
  refine (Keeps.of_aloof hparse).bind fun found => ?_
  cases found with
  | ok l => exact keeps_handleLine files l t place
  | error e => exact (keeps_note _).bind fun _ => keeps_handleMalformed t

/-- So does any token. -/
theorem keeps_processAt (files : FileAccess) (tokens : List Token) (start : Nat) :
    Keeps Conditional.Sound (processAt files tokens start) := by
  unfold processAt
  split
  · exact .of_aloof (.pure _)
  · rename_i t _
    intro s hs
    rw [current_bind]
    have hname (place : Place) : Keeps Conditional.Sound (handleName tokens start place) :=
      .of_aloof fun c saved => (lasting_beside files c saved).handleName tokens start place
    cases t.kind with
    | directive => exact ((keeps_handleDirective files t _).bind fun _ => .of_aloof (.pure _)) s hs
    | eof => exact ⟨hs, rfl⟩
    | stringLiteral | numberLiteral => exact ⟨hs, rfl⟩
    | _ =>
      dsimp only
      split
      · exact ⟨hs, rfl⟩
      · exact hname _ s hs

end SessionM

/-- Texts of definitions add no user macro and remove nothing. -/
theorem Session.clearUser_predefineAll {t t' : Table} {definitions : List String} (ht : t.clearUser = t)
    (h : predefineAll t definitions = .ok t') : t'.clearUser = t' := by
  induction definitions generalizing t with
  | nil =>
    rw [predefineAll, Except.ok.injEq] at h
    exact h ▸ ht
  | cons definition rest ih =>
    rw [predefineAll] at h
    split at h
    · rename_i m _
      have hm : (t.predefine m).clearUser = t.predefine m := congrArg (Table.predefine · m) ht
      exact ih hm h
    · nomatch h

/-- A session for settings has no more than their macros: nothing is under way in it, and no file has defined or removed a macro. -/
theorem Session.eq_of_ofSettings {settings : Settings} {s : Session} (h : ofSettings settings = .ok s) :
    ∃ table : Table, table.clearUser = table ∧ s = { settings, expander := { table } } := by
  unfold ofSettings at h
  dsimp only at h
  split at h
  · rename_i table htable
    refine ⟨table, clearUser_predefineAll ?_ htable, (Except.ok.inj h).symm⟩
    refine List.foldlRecOn (motive := fun t : Table => t.clearUser = t) settings.standard _ rfl ?_
    intro t ht entry _
    exact congrArg (Table.predefine · _) ht
  · nomatch h

/-- The sessions that come from settings by defining and removing macros, starting and ending files, saving and restoring the state of
conditionals, and processing tokens. -/
inductive Session.Reachable : Session → Prop
  | fresh {settings : Settings} {s : Session} : Session.ofSettings settings = .ok s → Reachable s
  | mapTable {s : Session} (f : Table → Table) : Reachable s → Reachable (s.mapTable f)
  | begin {s : Session} (file : String) : Reachable s → Reachable (s.begin file)
  | finish {s : Session} : Reachable s → Reachable s.finish
  | push {s : Session} (file : Option String) : Reachable s → Reachable (s.pushState file)
  | pop {s s' : Session} : Reachable s → s.popState? = some s' → Reachable s'
  | process {s : Session} (latest : List Notice) (files : FileAccess) (tokens : List Token) (start : Nat) : Reachable s →
    Reachable (stateAfter (SessionM.processAt files tokens start { state := s, latest })).state

/-- In a session that can be reached, inner conditionals are counted only while tokens are skipped; so it is with the saved states. -/
theorem Session.Reachable.sound {s : Session} (h : s.Reachable) : s.conditional.Sound ∧ ∀ c ∈ s.saved, c.Sound := by
  have hnew (file : Option String) : ({ includeFile := file } : Conditional).Sound := Conditional.sound_of_depth rfl
  induction h with
  | fresh hs =>
    obtain ⟨table, -, rfl⟩ := Session.eq_of_ofSettings hs
    exact ⟨hnew none, nofun⟩
  | mapTable f _ ih => exact ih
  | begin file _ ih => exact ih
  | finish _ _ => exact ⟨hnew none, nofun⟩
  | push file _ ih =>
    refine ⟨hnew file, ?_⟩
    intro c hc
    rcases List.mem_cons.mp hc with rfl | hc
    · exact ih.1
    · exact ih.2 c hc
  | pop _ hpop ih =>
    unfold Session.popState? at hpop
    split at hpop
    · nomatch hpop
    · rename_i c saved hsaved
      cases hpop
      exact ⟨ih.2 c (by simp [hsaved]), fun c' hc' => ih.2 c' (by simp [hsaved, hc'])⟩
  | process latest files tokens start _ ih =>
    obtain ⟨hsound, hsaved⟩ := SessionM.keeps_processAt files tokens start { state := _, latest } ih.1
    exact ⟨hsound, hsaved ▸ ih.2⟩

end Prepass
