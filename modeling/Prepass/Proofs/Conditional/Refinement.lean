import Mathlib
import Prepass.Proofs.Conditional.Passing
import Prepass.Proofs.Macro.Balance
import Prepass.Proofs.Session.Reachable

/-!
# Preprocessing goes by the tree of a source

Preprocessing the tokens of a source one after another comes to what preprocessing its tree does (`Block.leads`, `Branches.lead`), as
long as no macro invocation takes up a directive. The induction is on the tree. Its statement for a block is about a state in which
no tokens are skipped, its statement for branches about one inside a conditional of which no group has been chosen; the state of
the conditionals around them is whatever it is, because the tree does not look at it.
-/

namespace Prepass

open SessionM

/-! ## What is taken up by an invocation -/

/-- So many tokens at the head are text. -/
structure TakenUp (count : Nat) (tokens : List Token) : Prop where
  le_length : count ≤ tokens.length
  text : ∀ t ∈ tokens.take count, t.kind ≠ .directive ∧ t.kind ≠ .eof

/-- Tokens that do not begin with text. -/
def NoText (tokens : List Token) : Prop :=
  ∀ t, tokens.head? = some t → t.kind = .directive ∨ t.kind = .eof

/-- No tokens are text. -/
theorem TakenUp.zero (tokens : List Token) : TakenUp 0 tokens :=
  ⟨Nat.zero_le _, by simp⟩

/-- Where no text comes next, none is taken up. -/
theorem TakenUp.eq_zero {count : Nat} {tokens : List Token} (h : TakenUp count tokens) (hno : NoText tokens) : count = 0 := by
  cases count with
  | zero => rfl
  | succ count =>
    cases tokens with
    | nil => nomatch h.le_length
    | cons t rest =>
      obtain ⟨hdirective, heof⟩ := h.text t (by simp)
      rcases hno t rfl with hkind | hkind
      · exact absurd hkind hdirective
      · exact absurd hkind heof

/-- After one token of text there is one less to take up. -/
theorem TakenUp.tail {count : Nat} {t : Token} {rest : List Token} (h : TakenUp (count + 1) (t :: rest)) : TakenUp count rest :=
  ⟨Nat.le_of_succ_le_succ h.le_length, fun u hu => h.text u (by simp [hu])⟩

/-- A directive is no text. -/
theorem noText_of_directive {t : Token} (hkind : t.kind = .directive) (rest : List Token) : NoText (t :: rest) := by
  intro u hu
  cases hu
  exact .inl hkind

/-- Branches begin with a directive. -/
theorem Branches.noText (m : Branches) (after : List Token) : NoText (m.tokens ++ after) := by
  cases m with
  | closing t h => exact noText_of_directive (Token.kind_of_role h (by decide)) _
  | further t h group more => exact noText_of_directive (Token.kind_of_role h (by decide)) _
  | last t h group close hclose => exact noText_of_directive (Token.kind_of_role h (by decide)) _

/-! ## Text -/

section

variable {files : FileAccess} {t : Token} {s s' : Logged Session}

/-- A token of text that is not skipped. -/
theorem process_text (h : t.role? = some .text) (hskip : s.state.conditional.skipping = false) (rest : List Token) :
    process files (t :: rest) s = textAction t (t :: rest) s := by
  obtain ⟨hdirective, heof⟩ := Token.kind_of_text h
  rw [process_other hdirective, current_bind, if_neg heof, if_neg (by simp [hskip])]
  unfold textAction
  cases t.kind <;> rfl

/-- A name is kept, or the invocation that begins with it is replaced by its expansion. -/
theorem handleName_cases {window : List Token} {start : Nat} {place : Place} {action : Action}
    (h : handleName window start place s = .ok action s') :
    action = .keep ∨ ∃ ex e, Expand.head window start (s.withState s.state.expander) = .ok (some ex) e ∧
      action = .replace ex.beyond ((window.drop start).take ex.consumed) ex.tokens := by
  unfold handleName at h
  cases hhead : Expand.head window start (s.withState s.state.expander) with
  | error cause e =>
    rw [bind_of_error (expand_of_error hhead)] at h
    nomatch h
  | ok found e =>
    rw [bind_of_ok (expand_of_ok hhead)] at h
    cases found with
    | none =>
      cases h
      exact .inl rfl
    | some ex =>
      cases h
      exact .inr ⟨ex, e, rfl, rfl⟩

/-- The tokens that an invocation takes up beyond its name are there, and none of them is the end mark. -/
theorem beyond_of_handleName {window : List Token} {place : Place} {rest : List Token} {beyond : Nat} {skipped injected : List Token}
    (hwindow : window = t :: rest) (h : handleName window 0 place s = .ok (.replace beyond skipped injected) s') :
    beyond ≤ rest.length ∧ ∀ u ∈ rest.take beyond, u.kind ≠ .eof := by
  rcases handleName_cases h with hkeep | ⟨ex, e, hhead, hreplace⟩
  · cases hkeep
  · cases hreplace
    obtain ⟨name, input, hdrop, hle, heof⟩ := Expand.beyond_of_headWithin (Expand.restores_argument_or_deep _) hhead
    rw [hwindow, List.drop_zero, List.cons.injEq] at hdrop
    obtain ⟨-, rfl⟩ := hdrop
    exact ⟨hle, heof⟩

/-- The tokens that are taken up beyond the first are there, and none of them is the end mark. -/
theorem beyond_of_textAction {rest : List Token} {beyond : Nat} {skipped injected : List Token}
    (h : textAction t (t :: rest) s = .ok (.replace beyond skipped injected) s') :
    beyond ≤ rest.length ∧ ∀ u ∈ rest.take beyond, u.kind ≠ .eof := by
  unfold textAction at h
  generalize t.kind = kind at h
  cases kind with
  | stringLiteral | numberLiteral => nomatch h
  | _ => exact beyond_of_handleName rfl h

end

/-! ## Following the tree -/

/-- Preprocessing tokens from a state comes to a result of the tree: it gets to the tokens after it with what the tree leaves, or it stops
at the same fault. -/
def Leads (files : FileAccess) (tokens : List Token) (s : Logged Session) (after : List Token) :
    EStateM.Result Fault (Logged Session) (List Token) → Prop
  | .ok out s' => Reaches files tokens s out after s'
  | .error e _ => ∃ s', preprocess files tokens s = .error e s'

namespace Leads

variable {files : FileAccess} {tokens mid after out : List Token} {s s₁ s₂ : Logged Session}

/-- What is left on the way comes before what the tree leaves. -/
theorem prepend {r : EStateM.Result Fault (Logged Session) (List Token)} (h : Reaches files tokens s out mid s₁)
    (h' : Leads files mid s₁ after r) : Leads files tokens s after (mapResult (out ++ ·) r) := by
  cases r with
  | ok out' s' => exact h.trans h'
  | error e s' =>
    obtain ⟨s'', herror⟩ := h'
    refine ⟨s'', ?_⟩
    rw [h.preprocess_eq, herror]
    rfl

/-- Nothing may be left on the way. -/
theorem of_reaches {r : EStateM.Result Fault (Logged Session) (List Token)} (h : Reaches files tokens s [] mid s₁)
    (h' : Leads files mid s₁ after r) : Leads files tokens s after r := by
  have hprepend := prepend h h'
  cases r <;> exact hprepend

/-- What aloof work leads to beside another state of conditionals, told by what it comes to where it stands. -/
theorem reaches_beside {w : SessionM (List Token)} {c : Conditional} (h : Leads files tokens (s.judged c) after (w (s.judged c)))
    (hw : Aloof w) (hc : c.includeFile = s.state.conditional.includeFile)
    (hs : w s = .ok out s₁) : Reaches files tokens (s.judged c) out after (s₁.judged c) := by
  rw [hw.ok_judged hs hc] at h
  exact h

/-- A fault is the same beside another state of conditionals. -/
theorem error_beside {w : SessionM (List Token)} {c : Conditional} (h : Leads files tokens (s.judged c) after (w (s.judged c)))
    (hw : Aloof w) (hc : c.includeFile = s.state.conditional.includeFile)
    {e : Fault} (hs : w s = .error e s₁) : Leads files tokens (s.judged c) mid (.error e s₂) := by
  obtain ⟨s', hother⟩ := hw.error_judged hs hc
  rw [hother] at h
  exact h

/-- A directive that stops at a fault stops preprocessing. -/
theorem of_directive_error {t : Token} (hkind : t.kind = .directive) (rest : List Token) {e : Fault}
    (h : handleDirective files t (s.place t) s = .error e s₁) :
    Leads files (t :: rest) s after (.error e s₂) := by
  have hprocess : process files (t :: rest) s = .error e s₁ := by
    rw [process_directive hkind, bind_of_error h]
  exact ⟨s₁, preprocessFrom_error hprocess []⟩

/-- What one part of a source leads to goes on with what the next part leads to. -/
theorem bind {w k : SessionM (List Token)} (h : Leads files tokens s mid (w s))
    (hk : ∀ out s₁, w s = .ok out s₁ → Reaches files tokens s out mid s₁ → Leads files mid s₁ after (k s₁)) :
    Leads files tokens s after ((do return (← w) ++ (← k)) s) := by
  cases hs : w s with
  | error e s₁ =>
    rw [hs] at h
    rw [bind_of_error hs]
    exact h
  | ok out s₁ =>
    rw [hs] at h
    rw [bind_of_ok hs]
    exact prepend h (hk out s₁ hs h)

end Leads

/-! ## One part of a tree -/

section

variable {files : FileAccess} {t : Token} {group : Block} {more : Branches} {window tokens after : List Token} {s s₁ f : Logged Session}

/-- After a token of text, preprocessing goes on with what the token leaves to be read. -/
theorem leads_text {rest : Nat → SessionM (List Token)} (h : t.role? = some .text) (hactive : s.state.conditional.Active)
    (hkept : DirectivesKept files (t :: window) s)
    (hrest : ∀ beyond s', s'.state.conditional.Active → TakenUp beyond window → DirectivesKept files (window.drop beyond) s' →
      Leads files (window.drop beyond) s' after (rest beyond s')) :
    Leads files (t :: window) s after ((do
      match ← textAction t (t :: window) with
      | .keep => return t :: (← rest 0)
      | .replace beyond _ injected => return injected ++ (← rest beyond)) s) := by
  have hprocess : process files (t :: window) s = _ := process_text h hactive.1 _
  cases hs : textAction t (t :: window) s with
  | error e s₁ =>
    rw [hs] at hprocess
    rw [bind_of_error hs]
    exact ⟨s₁, preprocessFrom_error hprocess []⟩
  | ok action s₁ =>
    have hsame := (aloof_textAction t _).conditional_of_ok hs
    rw [hs] at hprocess
    rw [bind_of_ok hs]
    cases action with
    | keep =>
      have hstep := Reaches.of_keep hprocess
      exact Leads.prepend hstep (hrest 0 s₁ (hsame ▸ hactive) (.zero _) (hstep.kept hkept))
    | replace beyond skipped injected =>
      have hstep := Reaches.of_replace hprocess
      obtain ⟨hle, heof⟩ := beyond_of_textAction hs
      -- no directive is taken up because directives are kept, and no end mark because arguments never reach past it
      have hup : TakenUp beyond window := by
        refine ⟨hle, fun u hu => ⟨?_, heof u hu⟩⟩
        rw [DirectivesKept, hprocess] at hkept
        exact hkept.1 u hu
      exact Leads.prepend hstep (hrest beyond s₁ (hsame ▸ hactive) hup (hstep.kept hkept))

/-- After a directive that is no conditional, preprocessing goes on with what follows it. -/
theorem leads_plain {rest : SessionM (List Token)} (h : t.role? = some .plain) (hactive : s.state.conditional.Active)
    (hkept : DirectivesKept files (t :: window) s)
    (hrest : ∀ s', s'.state.conditional.Active → DirectivesKept files window s' → Leads files window s' after (rest s')) :
    Leads files (t :: window) s after ((do perform files t; rest) s) := by
  have hkind := Token.kind_of_role h (by decide)
  have hdirective : handleDirective files t (s.place t) s = _ := handleDirective_plain h hactive.1
  cases hs : perform files t s with
  | error e s₁ =>
    rw [hs] at hdirective
    rw [bind_of_error hs]
    exact .of_directive_error hkind _ hdirective
  | ok done s₁ =>
    have hsame := (aloof_perform files t).conditional_of_ok hs
    rw [hs] at hdirective
    rw [bind_of_ok hs]
    have hstep := Reaches.of_directive hkind window hdirective
    exact .of_reaches hstep (hrest s₁ (hsame ▸ hactive) (hstep.kept hkept))

/-- What is known of a group: preprocessing its tokens comes to what preprocessing the group does. -/
def GroupLeads (files : FileAccess) (group : Block) (after : List Token) : Prop :=
  ∀ s, s.state.conditional.Active → DirectivesKept files (group.tokens ++ after) s →
    Leads files (group.tokens ++ after) s after (group.process files 0 after s)

/-- What is known of branches: inside a conditional of which no group has been chosen, preprocessing their tokens comes to what
preprocessing the branches does. -/
def BranchesLead (files : FileAccess) (more : Branches) (after : List Token) : Prop :=
  ∀ s, s.state.conditional.Active → DirectivesKept files (more.tokens ++ after) (s.judged (s.state.conditional.openBranch false)) →
    Leads files (more.tokens ++ after) (s.judged (s.state.conditional.openBranch false)) after (more.process files after s)

/-- After the directive of a group, preprocessing follows the choice that its condition makes. -/
theorem leads_choose {active : Bool} (hholds : holds t s = .ok active s₁) (hactive : s.state.conditional.Active)
    (hkept : DirectivesKept files tokens f)
    (hhead : Reaches files tokens f [] (group.tokens ++ (more.tokens ++ after)) (s₁.judged (s₁.state.conditional.openBranch active)))
    (hgroup : GroupLeads files group (more.tokens ++ after)) (hmore : BranchesLead files more after) :
    Leads files tokens f after (choose t (group.process files 0 (more.tokens ++ after)) (more.passOver false) group.passOver
      (more.process files after) s) := by
  have hsame := (aloof_holds t).conditional_of_ok hholds
  have hactive₁ : s₁.state.conditional.Active := hsame ▸ hactive
  unfold choose
  rw [bind_of_ok hholds]
  cases active with
  | true =>
    have hinside := hgroup (s₁.judged (s₁.state.conditional.openBranch true)) ⟨rfl, hactive₁.2⟩ (hhead.kept hkept)
    show Leads files tokens f after ((do
      let out ← group.process files 0 (more.tokens ++ after)
      more.passOver false
      return out) s₁)
    have haloof := group.aloof_process files 0 (more.tokens ++ after)
    cases hs : group.process files 0 (more.tokens ++ after) s₁ with
    | ok out s₂ =>
      have hsame₂ := haloof.conditional_of_ok hs
      obtain ⟨s₃, hpass, hpast⟩ := more.reaches_past files after s₂ false (hsame₂ ▸ hactive₁)
      rw [hsame₂] at hpast
      rw [bind_of_ok hs, bind_of_ok hpass]
      have hall := (hhead.trans (hinside.reaches_beside haloof rfl hs)).trans hpast
      rw [List.append_nil] at hall
      exact hall
    | error e s₂ =>
      rw [bind_of_error hs]
      exact .of_reaches hhead (hinside.error_beside haloof rfl hs)
  | false =>
    show Leads files tokens f after ((do group.passOver; more.process files after) s₁)
    -- the branches after a group that is passed over start where the branches of a conditional do: nothing was chosen yet
    have hover := group.reaches_passed files (more.tokens ++ after) (s₁.judged (s₁.state.conditional.openBranch false)) rfl
    have hreach := hhead.trans hover
    have hrest := hmore (s₁.noteAll (group.tokens.flatMap Token.told)) hactive₁ (hreach.kept hkept)
    exact Leads.of_reaches hreach hrest

/-- A conditional that is reached. -/
theorem leads_opening (h : t.role? = some .opening) (hactive : s.state.conditional.Active)
    (hkept : DirectivesKept files (t :: (group.tokens ++ (more.tokens ++ after))) s)
    (hgroup : GroupLeads files group (more.tokens ++ after)) (hmore : BranchesLead files more after) :
    Leads files (t :: (group.tokens ++ (more.tokens ++ after))) s after
      (choose t (group.process files 0 (more.tokens ++ after)) (more.passOver false) group.passOver (more.process files after) s) := by
  have hkind := Token.kind_of_role h (by decide)
  have hdirective : handleDirective files t (s.place t) s = _ := handleDirective_opening h hactive.1
  cases hs : holds t s with
  | error e s₁ =>
    rw [bind_of_error hs] at hdirective
    unfold choose
    rw [bind_of_error hs]
    exact .of_directive_error hkind _ hdirective
  | ok active s₁ =>
    rw [bind_of_ok hs] at hdirective
    exact leads_choose hs hactive hkept (.of_directive hkind _ hdirective) hgroup hmore

/-- Closing a conditional that was opened leads back to the state before it. -/
theorem Conditional.close_openBranch {c : Conditional} (hc : c.Active) : (c.openBranch false).close = c := by
  obtain ⟨skip, depth, file, taken⟩ := c
  obtain ⟨rfl, rfl⟩ := hc
  rfl

/-- Coming to a branch of a conditional with no active one yet is as if that branch was its first. -/
theorem openBranch_enterBranch (c : Conditional) (active : Bool) : (c.openBranch false).enterBranch active = c.openBranch active := by
  cases active <;> rfl

/-- The end of a conditional of which no group has been chosen. -/
theorem branchesLead_closing (h : t.role? = some .closing) : BranchesLead files (.closing t h) after := by
  intro s hactive hkept
  have hdirective : handleDirective files t ((s.judged (s.state.conditional.openBranch false)).place t) _ = _ :=
    handleDirective_closing h (show (s.state.conditional.openBranch false).nestedDepth = 0 from hactive.2)
  have hstep := Reaches.of_directive (Token.kind_of_role h (by decide)) after hdirective
  have hclose : (s.state.conditional.openBranch false).close = s.state.conditional := Conditional.close_openBranch hactive
  rw [Logged.conditional_judged, hclose] at hstep
  exact hstep

/-- A further group after groups that were not chosen. -/
theorem branchesLead_further (h : t.role? = some .further) (hgroup : GroupLeads files group (more.tokens ++ after))
    (hmore : BranchesLead files more after) : BranchesLead files (.further t h group more) after := by
  intro s hactive hkept
  have hkind := Token.kind_of_role h (by decide)
  have htokens : (Branches.further t h group more).tokens ++ after = t :: (group.tokens ++ (more.tokens ++ after)) := by
    simp [Branches.tokens]
  rw [htokens] at hkept ⊢
  unfold Branches.process
  have hdepth : (s.judged (s.state.conditional.openBranch false)).state.conditional.nestedDepth = 0 := hactive.2
  cases hs : holds t s with
  | error e s₁ =>
    obtain ⟨s₂, hbeside⟩ := (aloof_holds t).error_judged hs (rfl : (s.state.conditional.openBranch false).includeFile = _)
    obtain ⟨s₃, hdirective⟩ := handleDirective_further_error h hdepth rfl hbeside
    unfold choose
    rw [bind_of_error hs]
    exact .of_directive_error hkind _ hdirective
  | ok active s₁ =>
    have hsame := (aloof_holds t).conditional_of_ok hs
    have hbeside := (aloof_holds t).ok_judged hs (rfl : (s.state.conditional.openBranch false).includeFile = _)
    have hdirective : handleDirective files t _ _ = _ := handleDirective_further h hdepth rfl hbeside
    have hopen : s.state.conditional.openBranch active = s₁.state.conditional.openBranch active := by rw [hsame]
    rw [Logged.conditional_judged, openBranch_enterBranch, hopen] at hdirective
    exact leads_choose hs hactive hkept (.of_directive hkind _ hdirective) hgroup hmore

/-- The last group after groups that were not chosen. -/
theorem branchesLead_last (h : t.role? = some .last) {close : Token} (hclose : close.role? = some .closing)
    (hgroup : GroupLeads files group (close :: after)) : BranchesLead files (.last t h group close hclose) after := by
  intro s hactive hkept
  have htokens : (Branches.last t h group close hclose).tokens ++ after = t :: (group.tokens ++ (close :: after)) := by
    simp [Branches.tokens]
  rw [htokens] at hkept ⊢
  have hdirective : handleDirective files t ((s.judged (s.state.conditional.openBranch false)).place t) _ = _ :=
    handleDirective_last h (show (s.state.conditional.openBranch false).nestedDepth = 0 from hactive.2)
  have hhead : Reaches files (t :: (group.tokens ++ (close :: after))) (s.judged (s.state.conditional.openBranch false)) []
      (group.tokens ++ (close :: after))
      (((s.noteAll t.told).note (.elseTaken (s.place t))).judged (s.state.conditional.past false)) :=
    .of_directive (Token.kind_of_role h (by decide)) _ hdirective
  have hinside := hgroup (((s.noteAll t.told).note (.elseTaken (s.place t))).judged (s.state.conditional.past false))
    ⟨rfl, hactive.2⟩ (hhead.kept hkept)
  have haloof := group.aloof_process files 0 (close :: after)
  show Leads files _ _ after ((do
    let out ← group.process files 0 (close :: after)
    tell close
    return out) ((s.noteAll t.told).note (.elseTaken (s.place t))))
  cases hs : group.process files 0 (close :: after) ((s.noteAll t.told).note (.elseTaken (s.place t))) with
  | error e s₁ =>
    rw [bind_of_error hs]
    exact .of_reaches hhead (hinside.error_beside haloof rfl hs)
  | ok out s₁ =>
    have hsame := haloof.conditional_of_ok hs
    rw [Logged.state_note, Logged.state_noteAll] at hsame
    have hend := reaches_closing files hclose after (s := s₁) (hsame ▸ hactive) false
    rw [hsame] at hend
    rw [bind_of_ok hs]
    have hall := (hhead.trans (hinside.reaches_beside haloof rfl hs)).trans hend
    rw [List.append_nil] at hall
    exact hall

end

/-! ## The whole tree -/

mutual

/-- Preprocessing the tokens of a block comes to what preprocessing the block does, when no tokens are skipped and no invocation takes up
a directive. -/
theorem Block.leads (files : FileAccess) :
    ∀ (b : Block) (taken : Nat) (after : List Token) (s : Logged Session), s.state.conditional.Active → NoText after →
      TakenUp taken (b.tokens ++ after) → DirectivesKept files ((b.tokens ++ after).drop taken) s →
      Leads files ((b.tokens ++ after).drop taken) s after (b.process files taken after s)
  | .nil, taken, after, s, hactive, hno, htaken, hkept => by
    cases htaken.eq_zero hno
    exact .refl files after s
  | .text t h rest, taken + 1, after, s, hactive, hno, htaken, hkept =>
    rest.leads files taken after s hactive hno htaken.tail hkept
  | .text t h rest, 0, after, s, hactive, hno, htaken, hkept =>
    leads_text h hactive hkept fun beyond s' hactive' htaken' hkept' => rest.leads files beyond after s' hactive' hno htaken' hkept'
  | .plain t h rest, taken, after, s, hactive, hno, htaken, hkept => by
    cases htaken.eq_zero (noText_of_directive (Token.kind_of_role h (by decide)) (rest.tokens ++ after))
    exact leads_plain h hactive hkept fun s' hactive' hkept' => rest.leads files 0 after s' hactive' hno (.zero _) hkept'
  | .conditional t h group more rest, taken, after, s, hactive, hno, htaken, hkept => by
    have htokens : (Block.conditional t h group more rest).tokens ++ after =
        t :: (group.tokens ++ (more.tokens ++ (rest.tokens ++ after))) := by
      simp [Block.tokens]
    rw [htokens] at htaken hkept ⊢
    cases htaken.eq_zero (noText_of_directive (Token.kind_of_role h (by decide)) _)
    rw [List.drop_zero] at hkept ⊢
    have hgroup : GroupLeads files group (more.tokens ++ (rest.tokens ++ after)) :=
      fun s' hactive' hkept' => group.leads files 0 _ s' hactive' (more.noText _) (.zero _) hkept'
    have haloof := aloof_choose t (group.aloof_process files 0 (more.tokens ++ (rest.tokens ++ after))) (more.aloof_passOver false)
      group.aloof_passOver (more.aloof_process files (rest.tokens ++ after))
    refine (leads_opening h hactive hkept hgroup (more.lead files (rest.tokens ++ after))).bind fun out s₁ hs hreach => ?_
    have hsame := haloof.conditional_of_ok hs
    exact rest.leads files 0 after s₁ (hsame ▸ hactive) hno (.zero _) (hreach.kept hkept)

/-- The same for branches. -/
theorem Branches.lead (files : FileAccess) : ∀ (m : Branches) (after : List Token), BranchesLead files m after
  | .closing t h, after => branchesLead_closing h
  | .further t h group more, after => by
    refine branchesLead_further h ?_ (more.lead files after)
    exact fun s hactive hkept => group.leads files 0 _ s hactive (more.noText _) (.zero _) hkept
  | .last t h group close hclose, after => by
    refine branchesLead_last h hclose ?_
    have hno := noText_of_directive (Token.kind_of_role hclose (by decide)) after
    exact fun s hactive hkept => group.leads files 0 _ s hactive hno (.zero _) hkept

end

/-! ## Whole sources -/

/-- End marks are kept. -/
theorem preprocess_ending (files : FileAccess) {ending : List Token} (h : ∀ t ∈ ending, t.kind = .eof) (s : Logged Session) :
    preprocess files ending s = .ok ending s := by
  induction ending with
  | nil =>
    unfold preprocess
    rw [preprocessFrom]
    rfl
  | cons t rest ih =>
    have hprocess : process files (t :: rest) s = .ok .keep s := by
      have heof := h t List.mem_cons_self
      rw [process_other (by simp [heof]), current_bind, if_pos heof]
      rfl
    rw [(Reaches.of_keep hprocess).preprocess_eq, ih fun u hu => h u (by simp [hu])]
    rfl

/-- Passing over a block changes nothing of a session. -/
theorem Block.state_passOver (b : Block) (s : Logged Session) : (stateAfter (b.passOver s)).state = s.state := rfl

/-- Passing over branches changes nothing of a session. -/
theorem Branches.state_passOver : ∀ (m : Branches) (skipping : Bool) (s : Logged Session),
    (stateAfter (m.passOver skipping s)).state = s.state
  | .closing t _, skipping, s => by
    cases skipping <;> rfl
  | .further t _ group more, skipping, s => by
    unfold Branches.passOver
    cases hl : t.line? with
    | some l =>
      rw [bind_of_ok (tellSkipped_of_line hl s)]
      exact more.state_passOver true _
    | none =>
      rw [bind_of_ok (tellSkipped_of_malformed hl s)]
      exact more.state_passOver true _
  | .last t _ group close _, skipping, s => rfl

/-- Preprocessing a source whose conditionals are nested well, from a session that can be reached and does not skip tokens, comes to what
preprocessing its tree does, as long as no macro invocation takes up a directive: the same tokens before the end marks, the same session,
and the same fault if there is one. The state of the conditionals is the same at the end as at the start, and the groups that the tree
passes over change nothing of the session. -/
theorem preprocess_follows_tree (files : FileAccess) (b : Block) {ending : List Token} (hending : ∀ t ∈ ending, t.kind = .eof)
    {s : Logged Session} (hreach : s.state.Reachable) (hskip : s.state.conditional.skipping = false)
    (hkept : DirectivesKept files (b.tokens ++ ending) s) :
    (match b.process files 0 ending s with
      | .ok out s' => preprocess files (b.tokens ++ ending) s = .ok (out ++ ending) s' ∧ s'.state.conditional = s.state.conditional
      | .error e _ => ∃ s', preprocess files (b.tokens ++ ending) s = .error e s') ∧
    (∀ (group : Block) (s' : Logged Session), (stateAfter (group.passOver s')).state = s'.state) ∧
    (∀ (more : Branches) (skipping : Bool) (s' : Logged Session), (stateAfter (more.passOver skipping s')).state = s'.state) := by
  refine ⟨?_, Block.state_passOver, Branches.state_passOver⟩
  have hno : NoText ending := fun t ht => .inr (hending t (List.mem_of_mem_head? ht))
  have hleads := b.leads files 0 ending s ⟨hskip, hreach.sound.1.depth hskip⟩ hno (.zero _) hkept
  cases hs : b.process files 0 ending s with
  | ok out s' =>
    rw [hs] at hleads
    refine ⟨?_, (b.aloof_process files 0 ending).conditional_of_ok hs⟩
    rw [← List.drop_zero (l := b.tokens ++ ending), Reaches.preprocess_eq hleads, preprocess_ending files hending]
    rfl
  | error e s' =>
    rw [hs] at hleads
    exact hleads

/-- A conditional on a name with text in both groups, of which the second is an invocation of a macro defined before. -/
def Block.choice : Block :=
  .plain { value := "#define F(a) a", kind := .directive } (by decide +kernel) <|
  .conditional { value := "#ifdef A", kind := .directive } (by decide +kernel)
    (.text { value := "x", kind := .identifier } (by decide +kernel) .nil)
    (.last { value := "#else", kind := .directive } (by decide +kernel)
      (.text { value := "F", kind := .identifier } (by decide +kernel) <|
        .text { value := "(", kind := .punctuator } (by decide +kernel) <|
        .text { value := "y", kind := .identifier } (by decide +kernel) <|
        .text { value := ")", kind := .punctuator } (by decide +kernel) .nil)
      { value := "#endif", kind := .directive } (by decide +kernel))
    .nil

/-- The end mark of a source. -/
def Token.endMark : Token :=
  { value := "", kind := .eof }

/-- A session without any macros, and nothing told. -/
def Session.bare : Logged Session :=
  { state := { settings := { standard := [] } } }

set_option maxRecDepth 2000 in
/-- The condition of the first group is false, and so the second group is preprocessed: what is left of the source is what the invocation in
it comes to, before the end mark. -/
theorem preprocess_follows_tree_choice : ∃ out s',
    DirectivesKept {} (Block.choice.tokens ++ [Token.endMark]) Session.bare ∧
    (do
      perform {} { value := "#define F(a) a", kind := .directive }
      holds { value := "#ifdef A", kind := .directive }).run' Session.bare = some false ∧
    Block.choice.process {} 0 [Token.endMark] Session.bare = .ok out s' ∧
    (out.map fun u => (u.value, u.generated)) = [("y", true)] ∧
    preprocess {} (Block.choice.tokens ++ [Token.endMark]) Session.bare = .ok (out ++ [Token.endMark]) s' ∧
    s'.state.conditional = {} := by
  have hkept : DirectivesKept {} (Block.choice.tokens ++ [Token.endMark]) Session.bare := by
    cbv
    simp
  have hchosen : ((Block.choice.process {} 0 [Token.endMark]).run' Session.bare).map
      (fun out => out.map fun u => (u.value, u.generated)) = some [("y", true)] := by
    cbv
  have hfresh : Session.ofSettings { standard := [] } = .ok Session.bare.state := rfl
  obtain ⟨out, s', hs, hvalues⟩ := map_run'_eq_some.mp hchosen
  have hfollows := (preprocess_follows_tree {} Block.choice (by simp [Token.endMark]) (.fresh hfresh) rfl hkept).1
  rw [hs] at hfollows
  obtain ⟨hpreprocess, hconditional⟩ := hfollows
  refine ⟨out, s', hkept, ?_, hs, hvalues, hpreprocess, hconditional⟩
  cbv

end Prepass
