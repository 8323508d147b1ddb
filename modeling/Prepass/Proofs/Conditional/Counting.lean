import Mathlib
import Prepass.Proofs.Conditional.Move
import Prepass.Proofs.Conditional.Refinement
import Prepass.Proofs.Session.Run

/-!
# How many conditionals are open

The state of conditionals tells how many conditionals are open: those of which it keeps whether a branch has been active, and those that
are only counted (`Conditional.openCount`). A directive changes this number as its role says, whether it can be parsed or not and
whether tokens are skipped or not (`changes_handleDirective`). A macro invocation that takes up a directive along with its
arguments keeps the directive from being met, so after a run the number is that of the directives that were met
(`openCount_preprocess`), which are all directives only when none is taken up.
-/

namespace Prepass

namespace Conditional

/-- The number of conditionals that are open. -/
def openCount (c : Conditional) : Nat :=
  c.taken.length + c.nestedDepth

variable (c : Conditional)

/-- An inner conditional is one more. -/
theorem openCount_nest : c.nest.openCount = c.openCount + 1 := rfl

/-- A conditional that is opened is one more. -/
theorem openCount_openBranch (active : Bool) : (c.openBranch active).openCount = c.openCount + 1 := by
  simp only [openCount, openBranch, List.length_cons]
  omega

/-- Recording whether a branch was taken opens and closes nothing. -/
theorem openCount_mark (active : Bool) : (c.mark active).openCount = c.openCount := by
  unfold mark
  split
  · rfl
  · rename_i t outer htaken
    simp [openCount, htaken]

/-- A further branch opens and closes nothing. -/
theorem openCount_enterBranch (active : Bool) : (c.enterBranch active).openCount = c.openCount :=
  c.openCount_mark active

/-- A last branch opens and closes nothing. -/
theorem openCount_elseBranch : c.elseBranch.openCount = c.openCount :=
  c.openCount_mark true

/-- Closing a conditional leaves one less, unless none was open. -/
theorem openCount_close : c.close.openCount = c.openCount - 1 := by
  unfold close
  split
  · simp only [openCount]
    omega
  · simp only [openCount, List.length_tail]
    omega

/-- A move changes the number of open conditionals as its role says. -/
theorem openCount_of_move {c c' : Conditional} {r : Token.Role} (h : c.Move r c') : c'.openCount = r.opened c.openCount := by
  cases h with
  | plain => rfl
  | nest hskip => exact c.openCount_nest
  | opening active hskip => exact c.openCount_openBranch active
  | inner hr hdepth => rcases hr with rfl | rfl <;> rfl
  | further active hdepth htaken => exact c.openCount_enterBranch active
  | past hdepth htaken => rfl
  | last hdepth => exact c.openCount_elseBranch
  | closing => exact c.openCount_close

end Conditional

/-- The number of open conditionals after some directives. -/
def openedBy (directives : List Token) (n : Nat) : Nat :=
  directives.foldl (fun n t => (t.role?.map fun r => r.opened n).getD n) n

namespace SessionM

/-! ## Single directives -/

/-- Work that changes the number of open conditionals in a certain way when it gives a value. -/
def Changes {α : Type} (g : Nat → Nat) (w : SessionM α) : Prop :=
  ∀ s a s', w s = .ok a s' → s'.state.conditional.openCount = g s.state.conditional.openCount

namespace Changes

variable {α β : Type} {g k : Nat → Nat} {w : SessionM α} {f : α → SessionM β}

/-- Work in which conditionals have no part opens and closes nothing. -/
theorem of_aloof (h : Aloof w) : Changes id w := by
  intro s a s' hs
  rw [h.conditional_of_ok hs]
  rfl

/-- In a row of work the numbers change one after another. -/
theorem bind (hw : Changes g w) (hf : ∀ a, Changes k (f a)) : Changes (fun n => k (g n)) (w >>= f) := by
  intro s b s' hs
  obtain ⟨a, s₁, hx, hs⟩ := exists_of_bind_ok hs
  rw [hf a s₁ b s' hs, hw s a s₁ hx]

/-- Work that begins with a look at the session. -/
theorem current_bind {f : Session → SessionM β} (h : ∀ s : Session, Changes g (f s)) : Changes g (current >>= f) :=
  fun s => h s.state s

end Changes

/-- A directive changes the number of open conditionals as its role says, also when it cannot be parsed. -/
theorem changes_handleDirective (files : FileAccess) {t : Token} {r : Token.Role} (h : t.role? = some r) (hr : r ≠ .text) (place : Place) :
    Changes r.opened (handleDirective files t place) := by
  intro s a s' hs
  obtain ⟨r', hmove, -, htally⟩ := move_of_handleDirective (Token.kind_of_role h hr) hs
  rw [Conditional.openCount_of_move hmove, ← htally, Token.tally_of_role h hr]

end SessionM

open SessionM

/-! ## Runs -/

/-- The directives that preprocessing meets, in order. One that a macro invocation takes up is not met. -/
def directivesMet (files : FileAccess) (tokens : List Token) (s : Logged Session) : List Token :=
  match tokens with
  | [] => []
  | t :: rest =>
    [t].filter (·.kind = .directive) ++
      match process files (t :: rest) s with
      | .ok .keep s' => directivesMet files rest s'
      | .ok (.replace beyond _ _) s' => directivesMet files (rest.drop beyond) s'
      | .error _ _ => []
termination_by tokens.length
decreasing_by
  · simp
  · simp only [List.length_drop, List.length_cons]; omega

/-- Directives count one after another. -/
theorem openedBy_append (before after : List Token) (n : Nat) : openedBy (before ++ after) n = openedBy after (openedBy before n) :=
  List.foldl_append

/-- A step changes the number of open conditionals only when it meets a directive, and then as the role of the directive says. -/
theorem changes_process (files : FileAccess) {t : Token} (hsign : t.kind = .directive → t.role?.isSome = true) (rest : List Token) :
    Changes (openedBy ([t].filter (·.kind = .directive))) (process files (t :: rest)) := by
  intro s action s' h
  by_cases hkind : t.kind = .directive
  · obtain ⟨r, hrole⟩ := Option.isSome_iff_exists.mp (hsign hkind)
    have hr : r ≠ .text := by
      rintro rfl
      exact (Token.kind_of_text hrole).1 hkind
    rw [process_directive hkind] at h
    have hstep := ((changes_handleDirective files hrole hr (s.place t)).bind fun _ => .of_aloof (.pure (Action.replace 0 [t] []))) s _ _ h
    simpa [openedBy, hkind, hrole] using hstep
  · have hnone : [t].filter (·.kind = .directive) = [] := by simp [hkind]
    rw [hnone]
    rcases process_other_cases hkind rest s with hkeep | ⟨-, hdrop⟩ | ⟨-, hname⟩
    · rw [hkeep] at h
      cases h
      rfl
    · rw [hdrop] at h
      cases h
      rfl
    · have haloof : Aloof (handleName (t :: rest) 0 (s.place t)) :=
        fun c saved => (lasting_beside files c saved).handleName (t :: rest) 0 (s.place t)
      rw [hname] at h
      exact Changes.of_aloof haloof s action s' h

section

variable {files : FileAccess} {t : Token} {rest tokens out : List Token} {s s' : Logged Session}

@[simp]
theorem directivesMet_nil (files : FileAccess) (s : Logged Session) : directivesMet files [] s = [] := by
  rw [directivesMet]

/-- A token that is kept is met when it is a directive, and then the rest is. -/
theorem directivesMet_keep (h : process files (t :: rest) s = .ok .keep s') :
    directivesMet files (t :: rest) s = [t].filter (·.kind = .directive) ++ directivesMet files rest s' := by
  rw [directivesMet, h]

/-- So is one that is replaced, but what it takes up beyond itself is not met. -/
theorem directivesMet_replace {beyond : Nat} {skipped injected : List Token}
    (h : process files (t :: rest) s = .ok (.replace beyond skipped injected) s') :
    directivesMet files (t :: rest) s = [t].filter (·.kind = .directive) ++ directivesMet files (rest.drop beyond) s' := by
  rw [directivesMet, h]

namespace Run

/-- The directives that are met stand in the source, in this order. -/
theorem sublist_directivesMet (h : Run files [] s' tokens s) :
    (directivesMet files tokens s).Sublist (tokens.filter (·.kind = .directive)) := by
  induction h with
  | done => simp
  | @keep t rest _ _ hs _ ih =>
    rw [directivesMet_keep hs, ← List.singleton_append (l := rest), List.filter_append]
    exact (List.Sublist.refl _).append ih
  | @replace t rest beyond _ _ _ _ hs _ ih =>
    rw [directivesMet_replace hs, ← List.singleton_append (l := rest), List.filter_append]
    exact (List.Sublist.refl _).append (ih.trans ((List.drop_sublist beyond rest).filter _))

/-- Where no macro invocation takes up a directive, all directives are met. -/
theorem directivesMet_of_kept (h : Run files [] s' tokens s) (hkept : DirectivesKept files tokens s) :
    directivesMet files tokens s = tokens.filter (·.kind = .directive) := by
  induction h with
  | done => simp
  | keep hs _ ih =>
    rw [DirectivesKept, hs] at hkept
    rw [directivesMet_keep hs, ih hkept, ← List.filter_append, List.singleton_append]
  | @replace t rest beyond _ _ _ _ hs _ ih =>
    rw [DirectivesKept, hs] at hkept
    have htaken : (rest.take beyond).filter (·.kind = .directive) = [] := by simpa using hkept.1
    have hrest : (rest.drop beyond).filter (·.kind = .directive) = rest.filter (·.kind = .directive) := by
      conv_rhs => rw [← List.take_append_drop beyond rest, List.filter_append, htaken, List.nil_append]
    rw [directivesMet_replace hs, ih hkept.2, hrest, ← List.filter_append, List.singleton_append]

/-- The number of open conditionals changes as the directives that are met say. -/
theorem openCount_eq (h : Run files [] s' tokens s) (hsign : ∀ t ∈ tokens, t.kind = .directive → t.role?.isSome = true) :
    s'.state.conditional.openCount = openedBy (directivesMet files tokens s) s.state.conditional.openCount := by
  induction h with
  | done =>
    rw [directivesMet_nil]
    rfl
  | @keep t rest _ _ hs _ ih =>
    rw [directivesMet_keep hs, openedBy_append, ← changes_process files (hsign t (by simp)) rest _ _ _ hs]
    exact ih fun u hu => hsign u (by simp [hu])
  | @replace t rest beyond _ _ _ _ hs _ ih =>
    rw [directivesMet_replace hs, openedBy_append, ← changes_process files (hsign t (by simp)) rest _ _ _ hs]
    exact ih fun u hu => hsign u (List.mem_cons_of_mem t (List.mem_of_mem_drop hu))

end Run

end

/-- After preprocessing, as many conditionals are open as the directives that were met leave open. Those are directives of the source in
their order, and they are all of them as long as no macro invocation takes up a directive. -/
theorem openCount_preprocess (files : FileAccess) {tokens : List Token}
    (hsign : ∀ t ∈ tokens, t.kind = .directive → t.role?.isSome = true) {s s' : Logged Session} {out : List Token}
    (h : preprocess files tokens s = .ok out s') :
    s'.state.conditional.openCount = openedBy (directivesMet files tokens s) s.state.conditional.openCount ∧
    (directivesMet files tokens s).Sublist (tokens.filter (·.kind = .directive)) ∧
    (DirectivesKept files tokens s → directivesMet files tokens s = tokens.filter (·.kind = .directive)) :=
  have hrun := run_of_ok h
  ⟨hrun.openCount_eq hsign, hrun.sublist_directivesMet, hrun.directivesMet_of_kept⟩

/-- A source with a directive between the parentheses of an invocation. -/
def Token.crossing : List Token :=
  (Token.ofSource "#define F(x) x\nF(a\n#if 1\n)\n").state

/-- Every directive of the source is one that can be counted. -/
theorem Token.crossing_signed : ∀ t ∈ Token.crossing, t.kind = .directive → t.role?.isSome = true := by
  have hall : Token.crossing.all (fun t => t.kind = .directive → t.role?.isSome = true) = true := by cbv
  intro t ht
  exact of_decide_eq_true (List.all_eq_true.mp hall t ht)

/-- The invocation takes the directive up, so no conditional is open at the end. -/
theorem openCount_preprocess_crossing : ∃ out s',
    preprocess {} Token.crossing Session.bare = .ok out s' ∧
    s'.state.conditional.openCount = openedBy (directivesMet {} Token.crossing Session.bare) 0 ∧
    (directivesMet {} Token.crossing Session.bare).Sublist (Token.crossing.filter (·.kind = .directive)) ∧
    (DirectivesKept {} Token.crossing Session.bare →
      directivesMet {} Token.crossing Session.bare = Token.crossing.filter (·.kind = .directive)) := by
  have hsome : ((preprocess {} Token.crossing).run' Session.bare).isSome = true := by cbv
  obtain ⟨out, hout⟩ := Option.isSome_iff_exists.mp hsome
  obtain ⟨s', h⟩ := run'_eq_some.mp hout
  exact ⟨out, s', h, openCount_preprocess {} Token.crossing_signed h⟩

/-- A directive between the parentheses of an invocation is lost: it would open a conditional, and none is open after the run. -/
theorem directive_lost_in_arguments :
    (∀ t ∈ Token.crossing, t.kind = .directive → t.role?.isSome = true) ∧
    openedBy (Token.crossing.filter (·.kind = .directive)) Session.bare.state.conditional.openCount = 1 ∧
    match preprocess {} Token.crossing Session.bare with
    | .ok _ s' => s'.state.conditional.openCount = 0
    | .error .. => False := by
  refine ⟨Token.crossing_signed, ?_, ?_⟩
  · cbv
  · cbv

end Prepass
