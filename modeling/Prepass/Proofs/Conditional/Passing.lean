import Prepass.Proofs.Conditional.Steps

/-!
# Passing over parts of a source

Preprocessing goes from token to token. `Reaches` says that it gets from one place in a source to a later one, with some tokens left on
the way. From there it is shown that a block in a group that is passed over leaves nothing but notices (`Block.reaches_passed`),
and that the branches after the chosen group leave nothing but notices and the state of conditionals from before the conditional
(`Branches.reaches_past`).
-/

namespace Prepass

open SessionM

/-- No macro invocation that is met while preprocessing takes up a directive. -/
def DirectivesKept (files : FileAccess) (tokens : List Token) (s : Logged Session) : Prop :=
  match tokens with
  | [] => True
  | t :: rest =>
    match process files (t :: rest) s with
    | .ok .keep s' => DirectivesKept files rest s'
    | .ok (.replace beyond _ _) s' =>
      (∀ u ∈ rest.take beyond, u.kind ≠ .directive) ∧ DirectivesKept files (rest.drop beyond) s'
    | .error _ _ => True
termination_by tokens.length
decreasing_by
  · simp
  · simp only [List.length_drop, List.length_cons]; omega

/-! ## From place to place -/

section

variable {files : FileAccess} {t : Token} {rest : List Token} {s s' : Logged Session}

/-- A token that is kept comes to what is left, and the rest follows. -/
theorem preprocessFrom_keep (h : process files (t :: rest) s = .ok .keep s') (out : List Token) :
    preprocessFrom files out (t :: rest) s = preprocessFrom files (t :: out) rest s' := by
  rw [preprocessFrom, bind_of_ok h]

/-- What replaces tokens comes to what is left, and the rest after those taken up follows. -/
theorem preprocessFrom_replace {beyond : Nat} {skipped injected : List Token}
    (h : process files (t :: rest) s = .ok (.replace beyond skipped injected) s') (out : List Token) :
    preprocessFrom files out (t :: rest) s = preprocessFrom files (injected.reverse ++ out) (rest.drop beyond) s' := by
  rw [preprocessFrom, bind_of_ok h]

/-- A step that stops, stops preprocessing. -/
theorem preprocessFrom_error {e : Fault} (h : process files (t :: rest) s = .error e s') (out : List Token) :
    preprocessFrom files out (t :: rest) s = .error e s' := by
  rw [preprocessFrom, bind_of_error h]

end

/-- The tokens that were left before come first. -/
theorem preprocessFrom_eq (files : FileAccess) (out tokens : List Token) (s : Logged Session) :
    preprocessFrom files out tokens s = mapResult (out.reverse ++ ·) (preprocess files tokens s) := by
  unfold preprocess
  induction hn : tokens.length using Nat.strongRecOn generalizing out tokens s with
  | ind n ih =>
    cases tokens with
    | nil => simp [preprocessFrom, mapResult]
    | cons t rest =>
      cases hs : process files (t :: rest) s with
      | error e s₁ =>
        rw [preprocessFrom_error hs, preprocessFrom_error hs]
        rfl
      | ok action s₁ =>
        cases action with
        | keep =>
          have hless : rest.length < n := by simp [← hn]
          rw [preprocessFrom_keep hs, preprocessFrom_keep hs, ih _ hless _ _ _ rfl, ih _ hless [t] _ _ rfl, mapResult_mapResult]
          simp
        | replace beyond skipped injected =>
          have hless : (rest.drop beyond).length < n := by
            simp only [← hn, List.length_drop, List.length_cons]
            omega
          rw [preprocessFrom_replace hs, preprocessFrom_replace hs, ih _ hless _ _ _ rfl, ih _ hless (injected.reverse ++ []) _ _ rfl,
            mapResult_mapResult]
          simp

/-- Preprocessing gets from some tokens to later ones and to another state, and leaves some tokens on the way. -/
structure Reaches (files : FileAccess) (tokens : List Token) (s : Logged Session) (out after : List Token) (s' : Logged Session) :
    Prop where
  preprocess_eq : preprocess files tokens s = mapResult (out ++ ·) (preprocess files after s')
  kept : DirectivesKept files tokens s → DirectivesKept files after s'

namespace Reaches

variable {files : FileAccess} {tokens after : List Token} {s s' : Logged Session}

/-- Preprocessing gets to the tokens where it is. -/
theorem refl (files : FileAccess) (tokens : List Token) (s : Logged Session) : Reaches files tokens s [] tokens s := by
  refine ⟨?_, id⟩
  cases preprocess files tokens s <;> rfl

/-- What is left on one way and on the next is left on both. -/
theorem trans {out out' after' : List Token} {s'' : Logged Session} (h : Reaches files tokens s out after s')
    (h' : Reaches files after s' out' after' s'') : Reaches files tokens s (out ++ out') after' s'' := by
  refine ⟨?_, fun hkept => h'.kept (h.kept hkept)⟩
  rw [h.preprocess_eq, h'.preprocess_eq, mapResult_mapResult]
  simp

/-- A token that is kept. -/
theorem of_keep {t : Token} {rest : List Token} (h : process files (t :: rest) s = .ok .keep s') :
    Reaches files (t :: rest) s [t] rest s' := by
  constructor
  · exact (preprocessFrom_keep h []).trans (preprocessFrom_eq files [t] rest s')
  · intro hkept
    rw [DirectivesKept, h] at hkept
    exact hkept

/-- Tokens that are replaced. -/
theorem of_replace {t : Token} {rest : List Token} {beyond : Nat} {skipped injected : List Token}
    (h : process files (t :: rest) s = .ok (.replace beyond skipped injected) s') :
    Reaches files (t :: rest) s injected (rest.drop beyond) s' := by
  constructor
  · have hfrom := preprocessFrom_eq files (injected.reverse ++ []) (rest.drop beyond) s'
    rw [List.append_nil, List.reverse_reverse] at hfrom
    exact (preprocessFrom_replace h []).trans (by rw [List.append_nil]; exact hfrom)
  · intro hkept
    rw [DirectivesKept, h] at hkept
    exact hkept.2

end Reaches

/-! ## Single tokens -/

section

variable {files : FileAccess} {t : Token} {s s' : Logged Session}

/-- What becomes of a directive is what it does; it leaves no tokens. -/
theorem process_directive (hkind : t.kind = .directive) (rest : List Token) :
    process files (t :: rest) s = (do
      handleDirective files t (s.place t)
      return Action.replace 0 [t] []) s := by
  unfold process processAt
  rw [List.getElem?_cons_zero]
  show (current >>= _) s = _
  rw [current_bind, hkind]
  rfl

/-- What becomes of a token that is no directive: an end mark is kept, anything else is dropped where tokens are skipped, literals are kept, and
at any other token an invocation may begin. -/
theorem process_other (hkind : t.kind ≠ .directive) (rest : List Token) :
    process files (t :: rest) = (do
      let s ← current
      if t.kind = .eof then return .keep
      else if s.conditional.skipping then return .replace 0 [t] []
      else if t.kind = .stringLiteral ∨ t.kind = .numberLiteral then return .keep
      else handleName (t :: rest) 0 { file := s.fileName t, line := t.line }) := by
  unfold process processAt
  rw [List.getElem?_cons_zero]
  refine congrArg (current >>= ·) (funext fun s => ?_)
  cases h : t.kind with
  | directive => exact absurd h hkind
  | eof => rfl
  | stringLiteral | numberLiteral => cases s.conditional.skipping <;> rfl
  | identifier | characterLiteral | punctuator => cases s.conditional.skipping <;> rfl

/-- A token that is no directive is kept, dropped where tokens are skipped, or treated as a name where they are not. -/
theorem process_other_cases (hkind : t.kind ≠ .directive) (rest : List Token) (s : Logged Session) :
    process files (t :: rest) s = .ok .keep s ∨
    (t.kind ≠ .eof ∧ process files (t :: rest) s = .ok (.replace 0 [t] []) s) ∨
    (t.kind ≠ .eof ∧ process files (t :: rest) s = handleName (t :: rest) 0 (s.place t) s) := by
  rw [process_other hkind, current_bind]
  split
  · exact .inl rfl
  · rename_i heof
    split
    · exact .inr (.inl ⟨heof, rfl⟩)
    · split
      · exact .inl rfl
      · exact .inr (.inr ⟨heof, rfl⟩)

/-- A directive leaves nothing, and the rest follows. -/
theorem Reaches.of_directive (hkind : t.kind = .directive) (rest : List Token)
    (h : handleDirective files t (s.place t) s = .ok () s') : Reaches files (t :: rest) s [] rest s' := by
  have hprocess : process files (t :: rest) s = .ok (.replace 0 [t] []) s' := by
    rw [process_directive hkind, bind_of_ok h]
    rfl
  exact Reaches.of_replace hprocess

/-- A token of text that is skipped leaves nothing. -/
theorem Reaches.of_skipped_text (h : t.role? = some .text) (hskip : s.state.conditional.skipping = true) (rest : List Token) :
    Reaches files (t :: rest) s [] rest s := by
  obtain ⟨hdirective, heof⟩ := Token.kind_of_text h
  have hprocess : process files (t :: rest) s = .ok (.replace 0 [t] []) s := by
    rw [process_other hdirective, current_bind, if_neg heof, if_pos hskip]
    rfl
  exact Reaches.of_replace hprocess

end

/-! ## Groups that are passed over -/

/-- The number of inner conditionals after a directive. -/
def Token.Role.depth : Token.Role → Nat → Nat
  | .opening, depth => depth + 1
  | .closing, depth => depth - 1
  | _, depth => depth

/-- The state after passing over tokens: parsing them is told, and so many inner conditionals are counted. -/
def Logged.passed (s : Logged Session) (tokens : List Token) (depth : Nat) : Logged Session :=
  (s.noteAll (tokens.flatMap Token.told)).judged { s.state.conditional with nestedDepth := depth }

namespace Logged

variable (s : Logged Session) (tokens : List Token) (depth : Nat)

@[simp]
theorem nestedDepth_passed : (s.passed tokens depth).state.conditional.nestedDepth = depth := rfl

/-- Tokens are passed over in two parts or at once. -/
theorem passed_passed (more : List Token) (depth' : Nat) :
    (s.passed tokens depth).passed more depth' = s.passed (tokens ++ more) depth' := by
  simp [passed, judged, noteAll, Session.judged]

/-- Passing over tokens tells what parsing them gives to tell, and no more when the count stays. -/
theorem passed_same : s.passed tokens s.state.conditional.nestedDepth = s.noteAll (tokens.flatMap Token.told) := rfl

end Logged

/-- A token of text that is passed over does nothing. -/
theorem reaches_passed_text (files : FileAccess) {t : Token} (h : t.role? = some .text) {s : Logged Session}
    (hskip : s.state.conditional.skipping = true) (rest : List Token) :
    Reaches files (t :: rest) s [] rest (s.passed [t] s.state.conditional.nestedDepth) := by
  have htold : t.told = [] := by rw [Token.told, if_neg (Token.kind_of_text h).1]
  have hsame : s.passed [t] s.state.conditional.nestedDepth = s := by
    rw [Logged.passed_same, List.flatMap_singleton, htold]
    rfl
  rw [hsame]
  exact .of_skipped_text h hskip rest

/-- A directive that is passed over only counts. -/
theorem reaches_passed_directive (files : FileAccess) {t : Token} {r : Token.Role} (h : t.role? = some r) (hr : r ≠ .text)
    {s : Logged Session} (hskip : s.state.conditional.skipping = true)
    (hnest : r = .plain ∨ r = .opening ∨ 0 < s.state.conditional.nestedDepth) (rest : List Token) :
    Reaches files (t :: rest) s [] rest (s.passed [t] (r.depth s.state.conditional.nestedDepth)) := by
  have hcount : s.state.conditional.count r =
      { s.state.conditional with nestedDepth := r.depth s.state.conditional.nestedDepth } := by
    cases r with
    | closing =>
      have hdepth : 0 < s.state.conditional.nestedDepth := by simpa using hnest
      simp only [Conditional.count, Conditional.close, if_pos hdepth, Token.Role.depth]
    | _ => rfl
  have hdirective : handleDirective files t (s.place t) s = _ := handleDirective_passed h hr (s.place t) hskip hnest
  rw [hcount] at hdirective
  have hstate : s.passed [t] (r.depth s.state.conditional.nestedDepth) =
      (s.noteAll t.told).judged { s.state.conditional with nestedDepth := r.depth s.state.conditional.nestedDepth } := by
    rw [Logged.passed, List.flatMap_singleton]
  rw [hstate]
  exact .of_directive (Token.kind_of_role h hr) rest hdirective

mutual

/-- A block in a group that is passed over leaves nothing but notices. -/
theorem Block.reaches_passed (files : FileAccess) :
    ∀ (b : Block) (after : List Token) (s : Logged Session), s.state.conditional.skipping = true →
      Reaches files (b.tokens ++ after) s [] after (s.passed b.tokens s.state.conditional.nestedDepth)
  | .nil, after, s, _ => .refl files after s
  | .text t h rest, after, s, hskip => by
    have hhead := reaches_passed_text files h hskip (rest.tokens ++ after)
    have hrest := rest.reaches_passed files after (s.passed [t] s.state.conditional.nestedDepth) hskip
    rw [Logged.passed_passed] at hrest
    exact hhead.trans hrest
  | .plain t h rest, after, s, hskip => by
    have hhead := reaches_passed_directive files h (by decide) hskip (.inl rfl) (rest.tokens ++ after)
    have hrest := rest.reaches_passed files after (s.passed [t] s.state.conditional.nestedDepth) hskip
    rw [Logged.passed_passed] at hrest
    exact hhead.trans hrest
  | .conditional t h group more rest, after, s, hskip => by
    have hhead := reaches_passed_directive files h (by decide) hskip (.inr (.inl rfl))
      (group.tokens ++ (more.tokens ++ (rest.tokens ++ after)))
    have hgroup := group.reaches_passed files (more.tokens ++ (rest.tokens ++ after))
      (s.passed [t] (s.state.conditional.nestedDepth + 1)) hskip
    rw [Logged.passed_passed] at hgroup
    have hmore := more.reaches_passed files (rest.tokens ++ after)
      (s.passed ([t] ++ group.tokens) (s.state.conditional.nestedDepth + 1)) s.state.conditional.nestedDepth hskip rfl
    rw [Logged.passed_passed] at hmore
    have hrest := rest.reaches_passed files after
      (s.passed ([t] ++ group.tokens ++ more.tokens) s.state.conditional.nestedDepth) hskip
    rw [Logged.passed_passed] at hrest
    have hall := ((hhead.trans hgroup).trans hmore).trans hrest
    simpa [Block.tokens] using hall

/-- Branches inside a group that is passed over leave nothing but notices and close their conditional. -/
theorem Branches.reaches_passed (files : FileAccess) :
    ∀ (m : Branches) (after : List Token) (s : Logged Session) (depth : Nat), s.state.conditional.skipping = true →
      s.state.conditional.nestedDepth = depth + 1 →
      Reaches files (m.tokens ++ after) s [] after (s.passed m.tokens depth)
  | .closing t h, after, s, depth, hskip, hdepth => by
    have hhead := reaches_passed_directive files h (by decide) hskip (.inr (.inr (by omega))) after
    rw [hdepth] at hhead
    exact hhead
  | .further t h group more, after, s, depth, hskip, hdepth => by
    have hhead := reaches_passed_directive files h (by decide) hskip (.inr (.inr (by omega))) (group.tokens ++ (more.tokens ++ after))
    rw [hdepth] at hhead
    have hgroup := group.reaches_passed files (more.tokens ++ after) (s.passed [t] (depth + 1)) hskip
    rw [Logged.passed_passed] at hgroup
    have hmore := more.reaches_passed files after (s.passed ([t] ++ group.tokens) (depth + 1)) depth hskip rfl
    rw [Logged.passed_passed] at hmore
    have hall := (hhead.trans hgroup).trans hmore
    simpa [Branches.tokens] using hall
  | .last t h group close hclose, after, s, depth, hskip, hdepth => by
    have hhead := reaches_passed_directive files h (by decide) hskip (.inr (.inr (by omega))) (group.tokens ++ (close :: after))
    rw [hdepth] at hhead
    have hgroup := group.reaches_passed files (close :: after) (s.passed [t] (depth + 1)) hskip
    rw [Logged.passed_passed] at hgroup
    have hend := reaches_passed_directive files hclose (by decide) (s := s.passed ([t] ++ group.tokens) (depth + 1)) hskip
      (.inr (.inr (Nat.succ_pos depth))) after
    rw [Logged.passed_passed] at hend
    have hall := (hhead.trans hgroup).trans hend
    simpa [Branches.tokens, Token.Role.depth] using hall

end

/-! ## Branches after the chosen group -/

/-- No tokens are skipped, and no inner conditionals are counted. -/
def Conditional.Active (c : Conditional) : Prop :=
  c.skipping = false ∧ c.nestedDepth = 0

/-- Closing a conditional that is passed over leads back to the state before it. -/
theorem Conditional.close_past {c : Conditional} (hc : c.Active) (skipping : Bool) : (c.past skipping).close = c := by
  obtain ⟨skip, depth, file, taken⟩ := c
  obtain ⟨rfl, rfl⟩ := hc
  rfl

/-- A group after the chosen one is passed over. -/
theorem Block.reaches_past (files : FileAccess) (b : Block) (after : List Token) (s : Logged Session) :
    Reaches files (b.tokens ++ after) (s.judged (s.state.conditional.past true)) [] after
      ((s.noteAll (b.tokens.flatMap Token.told)).judged (s.state.conditional.past true)) :=
  b.reaches_passed files after (s.judged (s.state.conditional.past true)) rfl

/-- The end of a conditional of which a group was chosen gives back the state of conditionals from before it. -/
theorem reaches_closing (files : FileAccess) {t : Token} (h : t.role? = some .closing) (after : List Token) {s : Logged Session}
    (hactive : s.state.conditional.Active) (skipping : Bool) :
    Reaches files (t :: after) (s.judged (s.state.conditional.past skipping)) [] after
      (if skipping then (s.noteAll t.told).note (.endifReached (s.place t)) else s.noteAll t.told) := by
  have hdirective : handleDirective files t ((s.judged (s.state.conditional.past skipping)).place t) _ = _ :=
    handleDirective_closing h (show (s.state.conditional.past skipping).nestedDepth = 0 from hactive.2)
  have hclose := Conditional.close_past hactive skipping
  have hreach := Reaches.of_directive (Token.kind_of_role h (by decide)) after hdirective
  rw [Logged.conditional_judged, hclose] at hreach
  cases skipping with
  | true => exact hreach
  | false => exact hreach

/-- Branches after the chosen group leave nothing but notices, and the state of conditionals from before the conditional. -/
theorem Branches.reaches_past (files : FileAccess) :
    ∀ (m : Branches) (after : List Token) (s : Logged Session) (skipping : Bool), s.state.conditional.Active →
      ∃ s', m.passOver skipping s = .ok () s' ∧
        Reaches files (m.tokens ++ after) (s.judged (s.state.conditional.past skipping)) [] after s'
  | .closing t h, after, s, skipping, hactive => by
    refine ⟨_, ?_, reaches_closing files h after hactive skipping⟩
    cases skipping <;> rfl
  | .further t h group more, after, s, skipping, hactive => by
    obtain ⟨s₁, htold⟩ : ∃ s₁, tellSkipped t s = .ok () s₁ := by
      cases hl : t.line? with
      | some l => exact ⟨_, tellSkipped_of_line hl s⟩
      | none => exact ⟨_, tellSkipped_of_malformed hl s⟩
    have hsame := (aloof_tellSkipped t).conditional_of_ok htold
    have hbeside := (aloof_tellSkipped t).ok_judged htold (rfl : (s.state.conditional.past skipping).includeFile = _)
    have hdirective : handleDirective files t ((s.judged (s.state.conditional.past skipping)).place t) _ = _ :=
      handleDirective_further_past h (show (s.state.conditional.past skipping).nestedDepth = 0 from hactive.2) rfl
    rw [bind_of_ok hbeside] at hdirective
    -- once a further group is passed over, the state is the same whether a group was passed over before it or not
    have hhead : Reaches files (t :: (group.tokens ++ (more.tokens ++ after))) (s.judged (s.state.conditional.past skipping)) []
        (group.tokens ++ (more.tokens ++ after)) (s₁.judged (s₁.state.conditional.past true)) := by
      rw [hsame]
      exact .of_directive (Token.kind_of_role h (by decide)) _ hdirective
    have hgroup := group.reaches_past files (more.tokens ++ after) s₁
    obtain ⟨s', hpass, hmore⟩ := more.reaches_past files after (s₁.noteAll (group.tokens.flatMap Token.told)) true
      (by rw [Logged.state_noteAll, hsame]; exact hactive)
    refine ⟨s', (bind_of_ok htold).trans hpass, ?_⟩
    have htokens : (Branches.further t h group more).tokens ++ after = t :: (group.tokens ++ (more.tokens ++ after)) := by
      simp [Branches.tokens]
    rw [htokens]
    exact (hhead.trans hgroup).trans hmore
  | .last t h group close hclose, after, s, skipping, hactive => by
    have hdirective : handleDirective files t ((s.judged (s.state.conditional.past skipping)).place t) _ = _ :=
      handleDirective_last h (show (s.state.conditional.past skipping).nestedDepth = 0 from hactive.2)
    have hhead := Reaches.of_directive (Token.kind_of_role h (by decide)) (group.tokens ++ (close :: after)) hdirective
    have hgroup := group.reaches_past files (close :: after) ((s.noteAll t.told).note (.elseSkipped (s.place t)))
    have hend := reaches_closing files hclose after (s := ((s.noteAll t.told).note (.elseSkipped (s.place t))).noteAll
      (group.tokens.flatMap Token.told)) hactive true
    refine ⟨_, rfl, ?_⟩
    have htokens : (Branches.last t h group close hclose).tokens ++ after = t :: (group.tokens ++ (close :: after)) := by
      simp [Branches.tokens]
    rw [htokens]
    exact (Reaches.trans hhead hgroup).trans hend

end Prepass
