import Prepass.Proofs.Conditional.Steps

/-!
# Moves of conditionals

What a directive can do to the state of conditionals is said once (`Conditional.Move`): every directive that does not stop at a fault
makes one of a few moves, whether it is parsed or not and whether tokens are skipped or not (`move_of_handleDirective`). Which
directives count is read off their texts (`Token.tally`).
-/

namespace Prepass

/-- What a directive of a role can make of a state of conditionals. -/
inductive Conditional.Move (c : Conditional) : Token.Role → Conditional → Prop
  | plain : Move c .plain c
  | nest (hskip : c.skipping = true) : Move c .opening c.nest
  | opening (active : Bool) (hskip : c.skipping = false) : Move c .opening (c.openBranch active)
  | inner {r : Token.Role} (hr : r = .further ∨ r = .last) (hdepth : c.nestedDepth ≠ 0) : Move c r c
  | further (active : Bool) (hdepth : c.nestedDepth = 0) (htaken : c.branchTaken = false) : Move c .further (c.enterBranch active)
  | past (hdepth : c.nestedDepth = 0) (htaken : c.branchTaken = true) : Move c .further c.skipBranch
  | last (hdepth : c.nestedDepth = 0) : Move c .last c.elseBranch
  | closing : Move c .closing c.close

/-- The number of open conditionals after a directive of a role: one more after one that opens a conditional, and one less, if there is
one, after one that closes it. -/
def Token.Role.opened : Token.Role → Nat → Nat
  | .opening, n => n + 1
  | .closing, n => n - 1
  | _, n => n

/-! ## What a directive does -/

namespace SessionM

/-- Work that makes a move of a role when it gives a value, and leaves the saved states alone. -/
def Moves {α : Type} (r : Token.Role) (w : SessionM α) : Prop :=
  ∀ s a s', w s = .ok a s' → s.state.conditional.Move r s'.state.conditional ∧ s'.state.saved = s.state.saved

section

variable {α : Type} {r : Token.Role} {s s' : Logged Session}

/-- Work in which conditionals have no part leaves the saved states alone. -/
theorem saved_of_aloof {w : SessionM α} (hw : Aloof w) {a : α} (h : w s = .ok a s') : s'.state.saved = s.state.saved := by
  have hsaved := (hw.state_eq s).2
  rwa [h] at hsaved

/-- Such work moves as a directive does that is no conditional. -/
theorem moves_of_aloof {w : SessionM α} (hw : Aloof w) : Moves .plain w := by
  intro s a s' h
  rw [hw.conditional_of_ok h]
  exact ⟨.plain, saved_of_aloof hw h⟩

/-- A condition is looked at, the state of conditionals changes by its truth, and a false condition is told. -/
theorem conditional_of_judging {x : SessionM Bool} (hx : Aloof x) {g : Bool → Conditional → Conditional} {n : Notice}
    (h : (do let active ← x; updateConditional (g active); if !active then note n) s = .ok () s') :
    ∃ active, s'.state.conditional = g active s.state.conditional ∧ s'.state.saved = s.state.saved := by
  obtain ⟨active, s₁, hs₁, h⟩ := exists_of_bind_ok h
  refine ⟨active, ?_⟩
  rw [← hx.conditional_of_ok hs₁, ← saved_of_aloof hx hs₁]
  cases active with
  | true =>
    cases h
    exact ⟨rfl, rfl⟩
  | false =>
    cases h
    exact ⟨rfl, rfl⟩

/-- Conditionals have no part in evaluating a condition. -/
theorem aloof_condition (expression : List Token) (t : Token) (place : Place) : Aloof (condition expression t place) :=
  fun c saved => (lasting_beside {} c saved).condition expression t place

/-- A directive that asks for a name moves as one that opens a conditional. -/
theorem moves_handleIfdef (name : Token) (negated : Bool) (t : Token) (place : Place) :
    Moves .opening (handleIfdef name negated t place) := by
  intro s a s' h
  unfold handleIfdef at h
  rw [current_bind] at h
  split at h
  · rename_i hskip
    cases h
    exact ⟨.nest hskip, rfl⟩
  · rename_i hskip
    obtain ⟨active, hcond, hsaved⟩ := conditional_of_judging (g := fun active c => c.openBranch active)
      (Aloof.pure (s.state.table.contains name.value != negated)) h
    rw [hcond]
    exact ⟨.opening active (by simpa using hskip), hsaved⟩

/-- An if directive moves as one that opens a conditional. -/
theorem moves_handleIf (expression : List Token) (t : Token) (place : Place) : Moves .opening (handleIf expression t place) := by
  intro s a s' h
  unfold handleIf at h
  rw [current_bind] at h
  split at h
  · rename_i hskip
    cases h
    exact ⟨.nest hskip, rfl⟩
  · rename_i hskip
    obtain ⟨_, s₁, hnote, h⟩ := exists_of_bind_ok h
    cases hnote
    obtain ⟨active, hcond, hsaved⟩ := conditional_of_judging (aloof_condition expression t place) h
    rw [hcond]
    exact ⟨.opening active (by simpa using hskip), hsaved⟩

/-- An elif directive moves as a further branch. -/
theorem moves_handleElif (expression : List Token) (t : Token) (place : Place) : Moves .further (handleElif expression t place) := by
  intro s a s' h
  unfold handleElif at h
  rw [current_bind] at h
  split at h
  · rename_i hdepth
    cases h
    exact ⟨.inner (.inl rfl) hdepth, rfl⟩
  · rename_i hdepth
    have hzero : s.state.conditional.nestedDepth = 0 := Decidable.not_not.mp hdepth
    split at h
    · rename_i htaken
      cases h
      exact ⟨.past hzero htaken, rfl⟩
    · rename_i htaken
      obtain ⟨_, s₁, hlook, h⟩ := exists_of_bind_ok h
      cases hlook
      obtain ⟨_, s₂, hnote, h⟩ := exists_of_bind_ok h
      cases hnote
      obtain ⟨active, hcond, hsaved⟩ := conditional_of_judging (aloof_condition expression t place) h
      rw [hcond]
      -- tokens do not count as skipped while the condition is looked at, and whether they did is forgotten afterwards
      have hlooking := Conditional.enterBranch_looking s.state.conditional active
      exact ⟨hlooking ▸ .further active hzero (by simpa using htaken), hsaved⟩

/-- An else directive moves as a last branch. -/
theorem moves_handleElse (place : Place) : Moves .last (handleElse place) := by
  intro s a s' h
  unfold handleElse at h
  rw [current_bind] at h
  split at h
  · rename_i hdepth
    cases h
    exact ⟨.inner (.inr rfl) hdepth, rfl⟩
  · rename_i hdepth
    cases h
    exact ⟨.last (Decidable.not_not.mp hdepth), rfl⟩

/-- An endif directive moves as one that closes a conditional. -/
theorem moves_handleEndif (place : Place) : Moves .closing (handleEndif place) := by
  intro s a s' h
  unfold handleEndif at h
  rw [current_bind] at h
  split at h
  · cases h
    exact ⟨.closing, rfl⟩
  · cases h
    exact ⟨.closing, rfl⟩

/-- A directive line makes a move of its role. -/
theorem moves_handleLine (files : FileAccess) (l : DirectiveLine) (t : Token) (place : Place) :
    Moves l.directive.role (handleLine files l t place) := by
  have hcarry : Aloof (carryOut files l place) := fun c saved => (lasting_beside files c saved).carryOut l trivial
  have hplain : Moves .plain (do
      if (← current).conditional.skipping then return
      carryOut files l place) := by
    intro s a s' h
    rw [current_bind] at h
    split at h
    · cases h
      exact ⟨.plain, rfl⟩
    · exact moves_of_aloof hcarry s a s' h
  unfold handleLine
  cases l.directive with
  | ifdef name negated => exact moves_handleIfdef name negated t place
  | ifLine expression => exact moves_handleIf expression t place
  | elifLine expression => exact moves_handleElif expression t place
  | elseLine => exact moves_handleElse place
  | endifLine => exact moves_handleEndif place
  | _ => exact hplain

end

end SessionM

/-! ## Which directives count -/

namespace Token

/-- Whether the word after the first token of a directive opens a conditional. -/
def opens (t : Token) : Bool :=
  (ofText t.value)[1]?.any (·.value ∈ ["if", "ifdef", "ifndef"])

/-- Whether a directive is parsed as the end of a conditional. -/
def closes (t : Token) : Bool :=
  t.line?.any (·.directive = .endifLine)

/-- The number of open conditionals after a directive. -/
def tally (t : Token) (n : Nat) : Nat :=
  if t.opens then n + 1 else if t.closes then n - 1 else n

variable {t : Token}

/-- A directive that is parsed begins with a number sign. -/
theorem exists_role_of_line (hkind : t.kind = .directive) {l : DirectiveLine} (hl : t.line? = some l) :
    ∃ r, t.role? = some r ∧ r ≠ .text := by
  unfold line? DirectiveLine.ofText Parse.directiveLine at hl
  split at hl
  · rename_i l' c hparse
    obtain ⟨sign, c₁, hsign, -⟩ := exists_of_bind_ok hparse
    have hplace := ofText_place t.value t.line t.uri
    cases htokens : ofText t.value t.line t.uri with
    | nil =>
      rw [htokens] at hsign
      cases hsign
    | cons first rest =>
      have hfirst : first.value = "#" := by
        rw [htokens] at hsign
        by_cases hvalue : first.kind = .punctuator ∧ first.value = "#"
        · exact hvalue.2
        · simp [Parse.whole, Parse.value, Parse.token, Cursor.peek?, hvalue] at hsign
      cases hother : ofText t.value with
      | nil =>
        rw [htokens, hother] at hplace
        cases hplace
      | cons first' rest' =>
        rw [htokens, hother, List.map_cons, List.map_cons, List.cons.injEq, Prod.mk.injEq] at hplace
        have hsign' : first'.value = "#" := hplace.1.1.symm.trans hfirst
        have hrole : t.role? = some ((rest'.head?.map fun t => Role.ofKeyword t.value).getD .plain) := by
          simp [role?, hkind, hother, hsign']
        refine ⟨_, hrole, ?_⟩
        intro htext
        rw [htext] at hrole
        exact (kind_of_text hrole).1 hkind
  · cases hl

/-- A keyword opens a conditional when it is one of three. -/
theorem Role.ofKeyword_eq_opening (keyword : String) : Role.ofKeyword keyword = .opening ↔ keyword ∈ ["if", "ifdef", "ifndef"] := by
  unfold Role.ofKeyword
  split
  · simp_all
  · rename_i hnot
    repeat' split
    all_goals simp [hnot]

/-- A directive that opens a conditional is known by the word after its first token. -/
theorem opens_eq_of_role {r : Role} (h : t.role? = some r) (hr : r ≠ .text) : t.opens = decide (r = .opening) := by
  obtain ⟨-, sign, rest, htext, -, rfl⟩ := sign_of_role h hr
  unfold opens
  rw [htext]
  cases rest with
  | nil => rfl
  | cons keyword more => simp [Role.ofKeyword_eq_opening]

/-- A directive that is parsed counts as its line says. -/
theorem tally_of_line (hkind : t.kind = .directive) {l : DirectiveLine} (hl : t.line? = some l) (n : Nat) :
    t.tally n = l.directive.role.opened n := by
  obtain ⟨r, hrole, hr⟩ := exists_role_of_line hkind hl
  unfold tally
  rw [opens_eq_of_role hrole hr, ← role_of_line hrole hr hl, closes, hl, Option.any_some]
  cases l.directive <;> simp [Directive.role, Role.opened]

/-- A directive with a role counts as its role says. -/
theorem tally_of_role {r : Role} (h : t.role? = some r) (hr : r ≠ .text) (n : Nat) : t.tally n = r.opened n := by
  cases hl : t.line? with
  | some l => rw [tally_of_line (kind_of_role h hr) hl, role_of_line h hr hl]
  | none =>
    have hcloses : t.closes = false := by simp [closes, hl]
    have hclosing : r ≠ .closing := by
      rintro rfl
      obtain ⟨l, hl'⟩ := exists_line h (.inr rfl)
      rw [hl] at hl'
      cases hl'
    unfold tally
    rw [opens_eq_of_role h hr, hcloses]
    cases r with
    | closing => exact absurd rfl hclosing
    | _ => rfl

end Token

namespace SessionM

/-- A directive that cannot be parsed makes a move that changes the number of open conditionals as it counts. -/
theorem move_of_handleMalformed {t : Token} (hl : t.line? = none) {s s' : Logged Session} (h : handleMalformed t s = .ok () s') :
    ∃ r, s.state.conditional.Move r s'.state.conditional ∧ s'.state.saved = s.state.saved ∧ ∀ n, t.tally n = r.opened n := by
  have hcloses : t.closes = false := by simp [Token.closes, hl]
  unfold handleMalformed at h
  cases hkeyword : (Token.ofText t.value)[1]? with
  | none =>
    rw [hkeyword] at h
    cases h
    exact ⟨.plain, .plain, rfl, fun n => by simp [Token.tally, Token.opens, hcloses, hkeyword, Token.Role.opened]⟩
  | some keyword =>
    have hopens : t.opens = decide (keyword.value ∈ ["if", "ifdef", "ifndef"]) := by simp only [Token.opens, hkeyword, Option.any_some]
    rw [hkeyword] at h
    dsimp only at h
    by_cases hopening : keyword.value ∈ ["if", "ifdef", "ifndef"]
    · rw [if_pos hopening] at h
      cases h
      refine ⟨.opening, ?_, rfl, fun n => by simp [Token.tally, hopens, hopening, Token.Role.opened]⟩
      show s.state.conditional.Move .opening s.state.conditional.openMalformed
      unfold Conditional.openMalformed
      split
      · rename_i hskip
        exact .nest hskip
      · rename_i hskip
        exact .opening true (by simpa using hskip)
    · rw [if_neg hopening] at h
      have htally (n : Nat) : t.tally n = n := by simp [Token.tally, hopens, hopening, hcloses]
      split at h
      · cases h
        refine ⟨.further, ?_, rfl, htally⟩
        show s.state.conditional.Move .further s.state.conditional.branchMalformed
        unfold Conditional.branchMalformed
        split
        · rename_i hdepth
          exact .inner (.inl rfl) hdepth
        · rename_i hdepth
          split
          · rename_i htaken
            exact .past (Decidable.not_not.mp hdepth) htaken
          · rename_i htaken
            exact .further true (Decidable.not_not.mp hdepth) (by simpa using htaken)
      · cases h
        exact ⟨.plain, .plain, rfl, htally⟩

/-- A directive makes a move that changes the number of open conditionals as it counts, whether it can be parsed or not. -/
theorem move_of_handleDirective {files : FileAccess} {t : Token} (hkind : t.kind = .directive) {place : Place} {s s' : Logged Session}
    (h : handleDirective files t place s = .ok () s') :
    ∃ r, s.state.conditional.Move r s'.state.conditional ∧ s'.state.saved = s.state.saved ∧ ∀ n, t.tally n = r.opened n := by
  rw [handleDirective_eq files hkind] at h
  obtain ⟨_, s₁, htold, h⟩ := exists_of_bind_ok h
  cases htold
  cases hl : t.line? with
  | some l =>
    rw [hl] at h
    obtain ⟨hmove, hsaved⟩ := moves_handleLine files l t place _ _ _ h
    exact ⟨_, hmove, hsaved, Token.tally_of_line hkind hl⟩
  | none =>
    rw [hl] at h
    exact move_of_handleMalformed (s := s.noteAll t.told) hl h

end SessionM

end Prepass
