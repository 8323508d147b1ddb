import Prepass.Proofs.Macro.Restoring

/-!
# What is told stays told

Expansion adds to what was told and takes nothing back: whatever it comes to, the notices from before are at the end of those after it
(`Expand.telling_all`). A turn of reading is looked at first, then reading to the end, and expanding arguments is the statement itself
one level further in.
-/

namespace Prepass

open Expand

/-- Work on an expander that only adds to what was told. -/
def Telling {α : Type} (x : Expand α) : Prop :=
  ∀ s, s.latest <:+ (stateAfter (x s)).latest

namespace Telling

variable {α β : Type} {x : Expand α} {f : α → Expand β}

/-- A value is given without telling anything. -/
theorem pure (a : α) : Telling (Pure.pure a : Expand α) :=
  fun s => List.suffix_refl s.latest

/-- A fault takes nothing back of what was told. -/
theorem throw (e : ExpandError) : Telling (throw e : Expand α) :=
  fun s => List.suffix_refl s.latest

/-- What follows only adds to what was told. -/
theorem latest_bind (hf : ∀ a, Telling (f a)) (x : Expand α) (s : Logged Expander) :
    (stateAfter (x s)).latest <:+ (stateAfter ((x >>= f) s)).latest := by
  cases hs : x s with
  | ok a s' =>
    rw [bind_of_ok hs]
    exact hf a s'
  | error e s' =>
    rw [bind_of_error hs]
    exact List.suffix_refl _

/-- Work in a row only adds to what was told when each part of it does. -/
theorem bind (hx : Telling x) (hf : ∀ a, Telling (f a)) : Telling (x >>= f) :=
  fun s => (hx s).trans (latest_bind hf x s)

/-- That work only adds to what was told lasts when work is put together. -/
theorem hereditary : Hereditary (fun _ x => Telling x) where
  pure := Telling.pure
  drop := Telling.throw _
  bind := Telling.bind

end Telling

/-! ## Names -/

namespace Expand

/-- Enabling a name tells nothing. -/
theorem telling_enable (name : String) : Telling (enable name) := by
  intro s
  unfold enable
  split
  · exact List.suffix_refl _
  · exact List.suffix_refl _

/-- Enabling several names tells nothing. -/
theorem telling_enableAll (names : List String) : Telling (enableAll names) := by
  induction names with
  | nil => exact .pure ()
  | cons name names ih => exact (telling_enable name).bind fun _ => ih

theorem telling_descend (name : String) (stack : Stack) : Telling (descend name stack) := by
  intro s
  unfold descend disable
  dsimp only
  split
  · exact List.suffix_refl _
  · exact List.suffix_refl _

end Expand

/-! ## Reading -/

section

variable {pre : List Token → Expand (List Token)}

/-- Making a replacement only adds to what was told. -/
theorem telling_instantiate (hpre : ∀ tokens, Telling (pre tokens)) (crossed : List String) (missing : Nat) (params : List String)
    (arguments body : List Token) (place : Token) : Telling (instantiate pre crossed missing params arguments body place) := by
  have hrest : Telling (do
      let body ← Substitution.substitute pre params (Arguments.fold params.length arguments) body
      return some (relex (Paste.paste body) place)) :=
    (Telling.hereditary.substitute hpre _ _ _).bind fun _ => .pure _
  refine (telling_enableAll crossed).bind fun _ => ?_
  split
  · exact (Telling.throw _).bind fun (_ : PUnit) => hrest
  · exact hrest

/-- Looking for the replacement of a name only adds to what was told. -/
theorem latest_replacement (hpre : ∀ tokens, Telling (pre tokens)) (name : Token) (stack : Stack) (s : Logged Expander) :
    s.latest <:+ (stateAfter (replacement pre name stack s).2).latest := by
  unfold replacement
  split
  · exact List.suffix_refl _
  · split
    · exact List.suffix_refl _
    · split
      · exact List.suffix_refl _
      · exact List.suffix_cons _ _
      · split
        · exact telling_instantiate hpre _ _ _ _ _ _ s
        · exact List.suffix_cons _ _

/-- What was told when a turn is over. -/
def Expand.Turn.latest : Turn → List Notice
  | .next _ _ s => s.latest
  | .stop _ result => (stateAfter result).latest

/-- What follows a replacement in the turn at an identifier only adds to what was told. -/
theorem latest_turnAt_of_replacement (pre : List Token → Expand (List Token)) (t : Token) (stack : Stack) (out : List Token)
    (s : Logged Expander) :
    (stateAfter (replacement pre t stack s).2).latest <:+ (turnAt pre t stack out s).latest := by
  unfold turnAt
  split
  · rename_i hr
    exact hr ▸ List.suffix_refl _
  · rename_i hr
    exact hr ▸ List.suffix_refl _
  · rename_i stack₁ tokens s₁ hr
    rw [hr]
    have hdescend := telling_descend t.value (stack₁.push t.value tokens) s₁
    split
    · rename_i hd
      rwa [hd] at hdescend
    · rename_i hd
      rwa [hd] at hdescend

/-- What becomes of a token only adds to what was told. -/
theorem latest_turnAt (hpre : ∀ tokens, Telling (pre tokens)) (t : Token) (stack : Stack) (out : List Token) (s : Logged Expander) :
    s.latest <:+ (turnAt pre t stack out s).latest :=
  (latest_replacement hpre t stack s).trans (latest_turnAt_of_replacement pre t stack out s)

/-- A turn of reading only adds to what was told. -/
theorem latest_turn (hpre : ∀ tokens, Telling (pre tokens)) (stack : Stack) (out : List Token) (s : Logged Expander) :
    s.latest <:+ (turn pre stack out s).latest := by
  unfold turn
  split
  · exact List.suffix_refl _
  · rename_i name below _
    have henable := telling_enable name s
    split
    · rename_i he
      rwa [he] at henable
    · rename_i he
      rwa [he] at henable
  · split
    · exact latest_turnAt hpre _ _ out s
    · exact List.suffix_refl _

/-- Reading to the end only adds to what was told: as a turn does, all turns do. -/
theorem latest_rescan (hpre : ∀ tokens, Telling (pre tokens)) (bound : Nat) (stack : Stack) (out : List Token) (s : Logged Expander) :
    s.latest <:+ (stateAfter (rescan pre bound stack out s).2).latest := by
  fun_induction rescan pre bound stack out s with
  | case1 stack out s htoo => exact List.suffix_refl _
  | case2 stack out s hle stack' result hturn =>
    have hkeep := latest_turn hpre stack out s
    rwa [hturn] at hkeep
  | case3 stack out s hle stack' out' s' hturn ih =>
    have hkeep := latest_turn hpre stack out s
    rw [hturn] at hkeep
    exact hkeep.trans ih

/-! ## Invocations -/

/-- What follows the first replacement of an invocation only adds to what was told. -/
theorem latest_run_of_replacement (hpre : ∀ tokens, Telling (pre tokens)) (head : Token) (input : List Token) {s : Logged Expander}
    (hshallow : isTooDeep s.state { input } = false) :
    (stateAfter (replacement pre head { input } s).2).latest <:+ (stateAfter (run pre head input s).2).latest := by
  have hpushed {stack₁ : Stack} {tokens : List Token} {s₁ : Logged Expander}
      (hr : replacement pre head { input } s = (stack₁, .ok (some tokens) s₁)) : (stateAfter (replacement pre head { input } s).2).latest <:+
        (stateAfter (descend head.value (stack₁.push head.value tokens) s₁)).latest := by
    rw [hr]
    exact telling_descend head.value (stack₁.push head.value tokens) s₁
  have hlater {bound : Nat} {stack₁ stack₂ : Stack} {s₂ : Logged Expander} {result : Outcome (List Token)}
      (hread : rescan pre bound stack₁ [] s₂ = (stack₂, result)) : s₂.latest <:+ (stateAfter result).latest := by
    have hadded := latest_rescan hpre bound stack₁ [] s₂
    rwa [hread] at hadded
  cases hrun : run pre head input s with
  | mk stack result =>
    cases ran_of_run hrun with
    | tooDeep hdeep => exact absurd hdeep (by simp [hshallow])
    | unreplaced hr _ => exact hr ▸ List.suffix_refl _
    | refused hr hd =>
      have hdescend := hpushed hr
      rwa [hd] at hdescend
    | read hr hd hread | stopped hr hd hread =>
      have hdescend := hpushed hr
      rw [hd] at hdescend
      exact hdescend.trans (hlater hread)

/-- A whole run only adds to what was told. -/
theorem latest_run (hpre : ∀ tokens, Telling (pre tokens)) (head : Token) (input : List Token) (s : Logged Expander) :
    s.latest <:+ (stateAfter (run pre head input s).2).latest := by
  cases hdeep : isTooDeep s.state { input } with
  | true =>
    simp only [run, hdeep, if_true]
    exact List.suffix_refl _
  | false => exact (latest_replacement hpre head { input } s).trans (latest_run_of_replacement hpre head input hdeep)

/-- Settling an invocation adds at most that it nests too deeply. -/
theorem latest_settle (head : Token) (stack : Stack) (result : Outcome (Option (List Token))) :
    (stateAfter result).latest <:+ (stateAfter (settle head stack result)).latest := by
  have hunwind (s : Logged Expander) : s.latest <:+ (stateAfter (unwind stack s)).latest := telling_enableAll _ s
  unfold settle
  dsimp only
  split
  · rename_i s
    have hleft := hunwind s
    split <;> rename_i hu <;> rwa [hu] at hleft
  · rename_i s
    have hleft := hunwind s
    split <;> rename_i hu <;> rwa [hu] at hleft
  · rename_i s
    have hleft := hunwind (s.note (.tooDeep head.value s.state.maxLevel))
    have hnoted := (List.suffix_cons _ _).trans hleft
    split <;> rename_i hu <;> rwa [hu] at hnoted
  · rename_i s _
    have hleft := hunwind s
    split <;> rename_i hu <;> rwa [hu] at hleft

namespace Expand

/-- So does the expansion of the name at a place. -/
theorem telling_headWithin (hpre : ∀ tokens, Telling (pre tokens)) (tokens : List Token) (start : Nat) :
    Telling (headWithin pre tokens start) := by
  intro s
  rcases headWithin_cases pre tokens start s with hnone | ⟨head, input, stack, result, -, hrun, hsettle⟩
  · rw [hnone]
    exact List.suffix_refl _
  · have hread := latest_run hpre head input { s with state := s.state.enter }
    rw [hrun] at hread
    rw [hsettle]
    exact hread.trans (latest_settle head stack result)

/-- So does the expansion of an argument, at any level. -/
theorem telling_argument (levels : Nat) (tokens : List Token) : Telling (argument levels tokens) := by
  induction levels generalizing tokens with
  | zero => exact Telling.hereditary.allWith (fun window => telling_headWithin (fun _ => .throw _) window 0) tokens
  | succ levels ih => exact Telling.hereditary.allWith (fun window => telling_headWithin ih window 0) tokens

/-- So does expanding at a place from the outermost level. -/
theorem telling_head (tokens : List Token) (start : Nat) : Telling (head tokens start) :=
  fun s => telling_headWithin (telling_argument _) tokens start s

/-- Expanding all tokens only adds to what was told. -/
theorem telling_all (tokens : List Token) : Telling (all tokens) :=
  Telling.hereditary.allWith (fun window => telling_head window 0) tokens

end Expand

end

end Prepass
