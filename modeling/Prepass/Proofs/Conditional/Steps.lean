import Prepass.Proofs.Conditional.Tree

/-!
# Single directives of conditionals

What a directive token does, by its role and by the state of the conditionals it is met in. Inside a group that is passed over,
conditionals are only counted. Otherwise a directive that opens a conditional or begins a further branch goes by its condition, unless
an earlier group was chosen, and the other two go by the state alone.
-/

namespace Prepass

/-- The state of conditionals inside a conditional of which a group has been chosen. -/
def Conditional.past (c : Conditional) (skipping : Bool) : Conditional :=
  { c with taken := true :: c.taken, skipping }

/-- The state of conditionals while the condition of a further branch is looked at. -/
def Conditional.looking (c : Conditional) : Conditional :=
  { c with skipping := false }

theorem Conditional.enterBranch_looking (c : Conditional) (active : Bool) : c.looking.enterBranch active = c.enterBranch active := by
  obtain ⟨skipping, nestedDepth, includeFile, taken⟩ := c
  cases taken <;> rfl

/-- What a directive in a group that is passed over does to the state of conditionals. -/
def Conditional.count (c : Conditional) : Token.Role → Conditional
  | .opening => c.nest
  | .closing => c.close
  | _ => c

/-- The place of a token in the file at hand. -/
def Logged.place (s : Logged Session) (t : Token) : Place :=
  { file := s.state.fileName t, line := t.line }

namespace SessionM

variable {files : FileAccess} {s : Logged Session} {t : Token}

/-- A directive is told first; then its line counts. -/
theorem handleDirective_of_line (hkind : t.kind = .directive) {l : DirectiveLine} (hl : t.line? = some l) (place : Place)
    (s : Logged Session) : handleDirective files t place s = handleLine files l t place (s.noteAll t.told) := by
  rw [handleDirective_eq files hkind, hl]
  rfl

/-- A directive that cannot be parsed is told; then its role counts. -/
theorem handleDirective_of_malformed {r : Token.Role} (h : t.role? = some r) (hr : r ≠ .text) (hl : t.line? = none) (place : Place)
    (s : Logged Session) :
    handleDirective files t place s = .ok () ((s.noteAll t.told).judged (malformed r s.state.conditional)) := by
  rw [handleDirective_eq files (Token.kind_of_role h hr), hl, handleMalformed_eq h hr]
  rfl

/-! ## In a group that is passed over -/

theorem handleLine_passed (l : DirectiveLine) (place : Place) (hskip : s.state.conditional.skipping = true)
    (hnest : l.directive.role = .plain ∨ l.directive.role = .opening ∨ 0 < s.state.conditional.nestedDepth) :
    handleLine files l t place s = .ok () (s.judged (s.state.conditional.count l.directive.role)) := by
  unfold handleLine
  cases hd : l.directive with
  | ifdef name negated =>
    show handleIfdef name negated t place s = _
    unfold handleIfdef
    rw [current_bind, if_pos hskip]
    rfl
  | ifLine expression =>
    show handleIf expression t place s = _
    unfold handleIf
    rw [current_bind, if_pos hskip]
    rfl
  | elifLine expression =>
    have hdepth : s.state.conditional.nestedDepth ≠ 0 := by simp [hd, Directive.role] at hnest; omega
    show handleElif expression t place s = _
    unfold handleElif
    rw [current_bind, if_pos hdepth]
    rfl
  | elseLine =>
    have hdepth : s.state.conditional.nestedDepth ≠ 0 := by simp [hd, Directive.role] at hnest; omega
    show handleElse place s = _
    unfold handleElse
    rw [current_bind, if_pos hdepth]
    rfl
  | endifLine =>
    have hdepth : ¬(s.state.conditional.nestedDepth = 0 ∧ s.state.conditional.skipping = true) := by
      simp [hd, Directive.role] at hnest; omega
    show handleEndif place s = _
    unfold handleEndif
    rw [current_bind]
    dsimp only
    rw [if_neg hdepth]
    rfl
  | _ =>
    show (current >>= _) s = _
    rw [current_bind, if_pos hskip]
    rfl

/-- In a group that is passed over, a directive does nothing but count, and last and further branches only count inside an inner conditional. -/
theorem handleDirective_passed {r : Token.Role} (h : t.role? = some r) (hr : r ≠ .text) (place : Place)
    (hskip : s.state.conditional.skipping = true) (hnest : r = .plain ∨ r = .opening ∨ 0 < s.state.conditional.nestedDepth) :
    handleDirective files t place s = .ok () ((s.noteAll t.told).judged (s.state.conditional.count r)) := by
  cases hl : t.line? with
  | some l =>
    have hrole := Token.role_of_line h hr hl
    rw [handleDirective_of_line (Token.kind_of_role h hr) hl, ← hrole]
    exact handleLine_passed l place hskip (hrole ▸ hnest)
  | none =>
    rw [handleDirective_of_malformed h hr hl]
    have hparsed (hclose : r = .last ∨ r = .closing) : False := by
      obtain ⟨l, hl'⟩ := Token.exists_line h hclose
      rw [hl] at hl'
      nomatch hl'
    cases r with
    | text => exact absurd rfl hr
    | plain => rfl
    | opening => simp only [malformed, Conditional.openMalformed, hskip, if_true, Conditional.count]
    | further =>
      have hdepth : s.state.conditional.nestedDepth ≠ 0 := by simp at hnest; omega
      simp only [malformed, Conditional.branchMalformed, if_pos hdepth, Conditional.count]
    | last => exact (hparsed (.inl rfl)).elim
    | closing => exact (hparsed (.inr rfl)).elim

/-! ## Where tokens are not skipped -/

/-- A directive that is no conditional is carried out. -/
theorem handleDirective_plain (h : t.role? = some .plain) (hskip : s.state.conditional.skipping = false) :
    handleDirective files t (s.place t) s = perform files t s := by
  unfold perform
  cases hl : t.line? with
  | some l =>
    have hrole := Token.role_of_line h (by decide) hl
    rw [handleDirective_of_line (Token.kind_of_role h (by decide)) hl]
    have hplain : handleLine files l t (s.place t) (s.noteAll t.told) = carryOut files l (s.place t) (s.noteAll t.told) := by
      unfold handleLine
      cases hd : l.directive with
      | ifdef | ifLine | elifLine | elseLine | endifLine => simp [hd, Directive.role] at hrole
      | _ =>
        show (current >>= _) _ = _
        rw [current_bind, Logged.state_noteAll, if_neg (by simp [hskip])]
    rw [hplain]
    rfl
  | none =>
    rw [handleDirective_of_malformed h (by decide) hl]
    rfl

/-- Telling that a condition is false and changing the state of conditionals may be done in either order. -/
theorem update_then_note (x : SessionM Bool) (g : Bool → Conditional → Conditional) (n : Notice) (s : Logged Session) :
    (do let active ← x; updateConditional (g active); if !active then note n) s =
      (do let active ← tellFalse x n; updateConditional (g active)) s := by
  cases hx : x s with
  | ok active s₁ =>
    cases active with
    | true =>
      have htold : tellFalse x n s = .ok true s₁ := by
        unfold tellFalse
        rw [bind_of_ok hx]
        rfl
      rw [bind_of_ok hx, bind_of_ok htold]
      rfl
    | false =>
      have htold : tellFalse x n s = .ok false (s₁.note n) := by
        unfold tellFalse
        rw [bind_of_ok hx]
        rfl
      rw [bind_of_ok hx, bind_of_ok htold]
      rfl
  | error e s₁ =>
    have htold : tellFalse x n s = .error e s₁ := bind_of_error hx
    rw [bind_of_error hx, bind_of_error htold]

/-- The condition of a directive that can be parsed is that of its line. -/
theorem holds_of_line {l : DirectiveLine} (hl : t.line? = some l) (s : Logged Session) :
    holds t s = tellFalse (verdict l.directive t (s.place t)) (.conditionFalse (s.place t) t.value) (s.noteAll t.told) := by
  unfold holds
  rw [hl]
  rfl

theorem holds_of_malformed (hl : t.line? = none) (s : Logged Session) : holds t s = .ok true (s.noteAll t.told) := by
  unfold holds
  rw [hl]
  rfl

/-- A directive line that opens a conditional goes by its condition. -/
theorem handleLine_opening {l : DirectiveLine} (hrole : l.directive.role = .opening) (place : Place)
    (hskip : s.state.conditional.skipping = false) :
    handleLine files l t place s = (do
      let active ← verdict l.directive t place
      updateConditional (·.openBranch active)
      if !active then note (.conditionFalse place t.value)) s := by
  have hnot : ¬s.state.conditional.skipping = true := by simp [hskip]
  unfold handleLine
  cases hd : l.directive with
  | ifdef name negated =>
    show handleIfdef name negated t place s = _
    unfold handleIfdef
    rw [current_bind, if_neg hnot]
    rfl
  | ifLine expression =>
    show handleIf expression t place s = _
    unfold handleIf
    rw [current_bind, if_neg hnot]
    rfl
  | _ => simp [hd, Directive.role] at hrole

/-- A directive that opens a conditional goes by its condition. -/
theorem handleDirective_opening (h : t.role? = some .opening) (hskip : s.state.conditional.skipping = false) :
    handleDirective files t (s.place t) s =
      (do let active ← holds t; updateConditional (·.openBranch active)) s := by
  cases hl : t.line? with
  | some l =>
    have hrole := Token.role_of_line h (by decide) hl
    have hskip' : (s.noteAll t.told).state.conditional.skipping = false := hskip
    rw [handleDirective_of_line (Token.kind_of_role h (by decide)) hl, handleLine_opening hrole (s.place t) hskip', update_then_note,
      bind_of_eq (holds_of_line hl s)]
  | none =>
    rw [handleDirective_of_malformed h (by decide) hl, bind_of_ok (holds_of_malformed hl s)]
    simp only [malformed, Conditional.openMalformed, hskip]
    rfl

/-! ## After the first group -/

/-- A further branch that can be parsed goes by its condition when no group before it was chosen. While the condition is looked at, tokens
do not count as skipped. -/
theorem handleLine_further {l : DirectiveLine} (hrole : l.directive.role = .further) (place : Place)
    (hdepth : s.state.conditional.nestedDepth = 0) (htaken : s.state.conditional.branchTaken = false) :
    handleLine files l t place s = (do
      let active ← tellFalse (verdict l.directive t place) (.conditionFalse place t.value)
      updateConditional (·.enterBranch active)) (s.judged s.state.conditional.looking) := by
  unfold handleLine
  cases hd : l.directive with
  | elifLine expression =>
    show handleElif expression t place s = _
    unfold handleElif
    rw [current_bind, if_neg (not_not_intro hdepth), if_neg (by simp [htaken]), ← update_then_note]
    rfl
  | _ => simp [hd, Directive.role] at hrole

/-- A further branch goes by its condition when no group before it was chosen. -/
theorem handleDirective_further (h : t.role? = some .further) (hdepth : s.state.conditional.nestedDepth = 0)
    (htaken : s.state.conditional.branchTaken = false) {active : Bool} {s₁ : Logged Session} (hholds : holds t s = .ok active s₁) :
    handleDirective files t (s.place t) s = .ok () (s₁.judged (s.state.conditional.enterBranch active)) := by
  cases hl : t.line? with
  | some l =>
    have hrole := Token.role_of_line h (by decide) hl
    rw [holds_of_line hl] at hholds
    have haloof := aloof_tellFalse (aloof_verdict l.directive t (s.place t)) (.conditionFalse (s.place t) t.value)
    have hbeside := haloof.ok_judged hholds (rfl : (s.noteAll t.told).state.conditional.looking.includeFile = _)
    have hdepth' : (s.noteAll t.told).state.conditional.nestedDepth = 0 := hdepth
    rw [handleDirective_of_line (Token.kind_of_role h (by decide)) hl, handleLine_further hrole (s.place t) hdepth' htaken]
    rw [bind_of_ok hbeside, ← Conditional.enterBranch_looking]
    rfl
  | none =>
    rw [holds_of_malformed hl] at hholds
    cases hholds
    rw [handleDirective_of_malformed h (by decide) hl]
    simp only [malformed, Conditional.branchMalformed, hdepth, htaken]
    rfl

/-- A condition of a further branch that stops at a fault stops the branch. -/
theorem handleDirective_further_error (h : t.role? = some .further) (hdepth : s.state.conditional.nestedDepth = 0)
    (htaken : s.state.conditional.branchTaken = false) {e : Fault} {s₁ : Logged Session} (hholds : holds t s = .error e s₁) :
    ∃ s₂, handleDirective files t (s.place t) s = .error e s₂ := by
  cases hl : t.line? with
  | some l =>
    have hrole := Token.role_of_line h (by decide) hl
    rw [holds_of_line hl] at hholds
    have haloof := aloof_tellFalse (aloof_verdict l.directive t (s.place t)) (.conditionFalse (s.place t) t.value)
    obtain ⟨s₂, hbeside⟩ :=
      haloof.error_judged hholds (rfl : (s.noteAll t.told).state.conditional.looking.includeFile = _)
    have hdepth' : (s.noteAll t.told).state.conditional.nestedDepth = 0 := hdepth
    rw [handleDirective_of_line (Token.kind_of_role h (by decide)) hl, handleLine_further hrole (s.place t) hdepth' htaken]
    exact ⟨s₂, bind_of_error hbeside⟩
  | none =>
    rw [holds_of_malformed hl] at hholds
    nomatch hholds

theorem tellSkipped_of_line {l : DirectiveLine} (hl : t.line? = some l) (s : Logged Session) :
    tellSkipped t s = .ok () ((s.noteAll t.told).note (.elifSkipped (s.place t))) := by
  unfold tellSkipped
  rw [hl]
  rfl

theorem tellSkipped_of_malformed (hl : t.line? = none) (s : Logged Session) : tellSkipped t s = .ok () (s.noteAll t.told) := by
  unfold tellSkipped
  rw [hl]
  rfl

/-- A further branch after the chosen group is skipped, whatever its condition. -/
theorem handleDirective_further_past (h : t.role? = some .further) (hdepth : s.state.conditional.nestedDepth = 0)
    (htaken : s.state.conditional.branchTaken = true) :
    handleDirective files t (s.place t) s = (do tellSkipped t; updateConditional Conditional.skipBranch) s := by
  cases hl : t.line? with
  | some l =>
    have hrole := Token.role_of_line h (by decide) hl
    rw [handleDirective_of_line (Token.kind_of_role h (by decide)) hl, bind_of_ok (tellSkipped_of_line hl s)]
    unfold handleLine
    cases hd : l.directive with
    | elifLine expression =>
      show handleElif expression t (s.place t) (s.noteAll t.told) = _
      unfold handleElif
      rw [current_bind, Logged.state_noteAll, if_neg (not_not_intro hdepth), if_pos htaken]
      rfl
    | _ => simp [hd, Directive.role] at hrole
  | none =>
    rw [handleDirective_of_malformed h (by decide) hl, bind_of_ok (tellSkipped_of_malformed hl s)]
    simp only [malformed, Conditional.branchMalformed, hdepth, htaken]
    rfl

/-- The last branch goes by whether a group was chosen. -/
theorem handleDirective_last (h : t.role? = some .last) (hdepth : s.state.conditional.nestedDepth = 0) :
    handleDirective files t (s.place t) s =
      .ok () (((s.noteAll t.told).note
        (if s.state.conditional.branchTaken then .elseSkipped (s.place t) else .elseTaken (s.place t))).judged
          s.state.conditional.elseBranch) := by
  obtain ⟨l, hl⟩ := Token.exists_line h (.inl rfl)
  have hrole := Token.role_of_line h (by decide) hl
  rw [handleDirective_of_line (Token.kind_of_role h (by decide)) hl]
  unfold handleLine
  cases hd : l.directive with
  | elseLine =>
    show handleElse (s.place t) (s.noteAll t.told) = _
    unfold handleElse
    rw [current_bind, Logged.state_noteAll, if_neg (not_not_intro hdepth)]
    rfl
  | _ => simp [hd, Directive.role] at hrole

/-- The end of a conditional is told when a group was passed over right before. -/
theorem handleDirective_closing (h : t.role? = some .closing) (hdepth : s.state.conditional.nestedDepth = 0) :
    handleDirective files t (s.place t) s =
      .ok () ((if s.state.conditional.skipping then (s.noteAll t.told).note (.endifReached (s.place t))
        else s.noteAll t.told).judged s.state.conditional.close) := by
  obtain ⟨l, hl⟩ := Token.exists_line h (.inr rfl)
  have hrole := Token.role_of_line h (by decide) hl
  rw [handleDirective_of_line (Token.kind_of_role h (by decide)) hl]
  unfold handleLine
  cases hd : l.directive with
  | endifLine =>
    show handleEndif (s.place t) (s.noteAll t.told) = _
    unfold handleEndif
    rw [current_bind, Logged.state_noteAll]
    cases hskip : s.state.conditional.skipping with
    | true =>
      rw [if_pos ⟨hdepth, rfl⟩]
      rfl
    | false =>
      rw [if_neg (fun hboth => nomatch hboth.2)]
      rfl
  | _ => simp [hd, Directive.role] at hrole

end SessionM

end Prepass
