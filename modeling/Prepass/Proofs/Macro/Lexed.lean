import Prepass.Macro.Expansion
import Prepass.Proofs.Outcome
import Prepass.Proofs.Token.Content

/-!
# Expansions are lexed

Every replacement is lexed before it is read. So the frames of a stack hold lexed tokens only, whatever the macros of the table are and
however arguments are expanded, and so does what reading them leaves: an expansion consists of lexed tokens at the place of the
invocation (`Expand.lexed_of_headWithin`).
-/

namespace Prepass

open Expand

/-! ## Lexed frames -/

namespace Stack

/-- What is still to be read in the frames is lexed. -/
def Lexed (stack : Stack) : Prop :=
  ∀ f ∈ stack.frames, ∀ t ∈ f.unread, t.Lexed

variable {stack : Stack}

theorem Lexed.push (h : stack.Lexed) (name : String) {tokens : List Token} (htokens : ∀ t ∈ tokens, t.Lexed) :
    (stack.push name tokens).Lexed := by
  intro f hf
  rcases List.mem_cons.mp hf with rfl | hf
  · exact htokens
  · exact h f hf

/-- Taking tokens off leaves lexed frames. -/
theorem Lexed.consume (h : stack.Lexed) (count : Nat) : (stack.consume count).stack.Lexed := by
  have hcross (frames : List Frame) (count : Nat) (hframes : ∀ f ∈ frames, ∀ t ∈ f.unread, t.Lexed) :
      ∀ f ∈ (cross frames count).1, ∀ t ∈ f.unread, t.Lexed := by
    induction frames generalizing count with
    | nil => exact hframes
    | cons f below ih =>
      by_cases hle : count ≤ f.unread.length
      · simp only [cross, hle, if_true]
        intro g hg t ht
        rcases List.mem_cons.mp hg with rfl | hg
        · exact hframes f (by simp) t (List.mem_of_mem_drop ht)
        · exact hframes g (List.mem_cons_of_mem f hg) t ht
      · simp only [cross, hle, if_false]
        exact ih _ fun g hg => hframes g (List.mem_cons_of_mem f hg)
  exact hcross stack.frames count h

end Stack

/-! ## Turns -/

section

variable {pre : List Token → Expand (List Token)} {input out tokens : List Token} {stack stack' : Stack} {s s' : Logged Expander}

theorem lexed_of_instantiate {crossed : List String} {missing : Nat} {params : List String} {arguments body : List Token} {place : Token}
    (h : instantiate pre crossed missing params arguments body place s = .ok (some tokens) s') : ∀ t ∈ tokens, t.Lexed := by
  have hmissing := missing_eq_zero_of_instantiate h
  subst hmissing
  unfold instantiate at h
  obtain ⟨_, s₁, -, h⟩ := exists_of_bind_ok h
  simp only [ne_eq, not_true_eq_false, if_false] at h
  obtain ⟨body', s₂, -, h⟩ := exists_of_bind_ok h
  cases h
  exact fun t => Token.lexed_of_mem

/-- A replacement is lexed, and it leaves lexed frames. -/
theorem lexed_of_replacement (hlexed : stack.Lexed) {name : Token} {result : Outcome (Option (List Token))}
    (hr : replacement pre name stack s = (stack', result)) :
    stack'.Lexed ∧ ∀ tokens s', result = .ok (some tokens) s' → ∀ t ∈ tokens, t.Lexed := by
  unfold replacement at hr
  split at hr
  · cases hr
    exact ⟨hlexed, nofun⟩
  · split at hr
    · cases hr
      refine ⟨hlexed, ?_⟩
      rintro tokens s' ⟨⟩
      exact fun t => Token.lexed_of_mem
    · split at hr
      · cases hr
        exact ⟨hlexed, nofun⟩
      · cases hr
        exact ⟨hlexed, nofun⟩
      · split at hr
        · simp only [Prod.mk.injEq] at hr
          obtain ⟨rfl, hr⟩ := hr
          refine ⟨hlexed.consume _, ?_⟩
          rintro tokens s' rfl
          exact lexed_of_instantiate hr
        · cases hr
          exact ⟨hlexed, nofun⟩

/-- What a turn leaves is lexed. -/
def Expand.Turn.Lexed : Turn → Prop
  | .next stack out _ => stack.Lexed ∧ ∀ t ∈ out, t.Lexed
  | .stop _ (.ok tokens _) => ∀ t ∈ tokens, t.Lexed
  | .stop _ (.error _ _) => True

theorem lexed_turnAt (hlexed : stack.Lexed) {t : Token} (ht : t.Lexed) (hout : ∀ u ∈ out, u.Lexed) :
    (turnAt pre t stack out s).Lexed := by
  unfold turnAt
  split
  · trivial
  · rename_i hr
    exact ⟨(lexed_of_replacement hlexed hr).1, List.forall_mem_cons.mpr ⟨ht, hout⟩⟩
  · rename_i stack₁ tokens s₁ hr
    obtain ⟨hlexed₁, htokens⟩ := lexed_of_replacement hlexed hr
    split
    · trivial
    · exact ⟨hlexed₁.push _ (htokens tokens s₁ rfl), hout⟩

/-- A turn of reading lexed frames leaves lexed frames and lexed tokens. -/
theorem lexed_turn (pre : List Token → Expand (List Token)) (hlexed : stack.Lexed) (hout : ∀ u ∈ out, u.Lexed) (s : Logged Expander) :
    (turn pre stack out s).Lexed := by
  obtain ⟨frames, rest, taken⟩ := stack
  unfold turn
  split
  · simpa [Turn.Lexed] using hout
  · rename_i name below hframes
    simp only at hframes
    subst hframes
    split
    · trivial
    · exact ⟨fun f hf => hlexed f (List.mem_cons_of_mem _ hf), hout⟩
  · rename_i name t unread below hframes
    simp only at hframes
    subst hframes
    have ht : t.Lexed := hlexed _ (List.mem_cons_self ..) t (by simp)
    have hread : ({ frames := { name, unread } :: below, input := rest, taken } : Stack).Lexed := by
      intro f hf u hu
      rcases List.mem_cons.mp hf with rfl | hf
      · exact hlexed _ (List.mem_cons_self ..) u (List.mem_cons_of_mem t hu)
      · exact hlexed f (List.mem_cons_of_mem _ hf) u hu
    split
    · exact lexed_turnAt hread ht hout
    · exact ⟨hread, List.forall_mem_cons.mpr ⟨ht, hout⟩⟩

/-- Reading lexed frames to their end leaves lexed tokens: what a turn leaves, all turns leave. -/
theorem lexed_rescan (pre : List Token → Expand (List Token)) (bound : Nat) (hlexed : stack.Lexed) (hout : ∀ u ∈ out, u.Lexed)
    (s : Logged Expander) :
    (Turn.stop (rescan pre bound stack out s).1 (rescan pre bound stack out s).2).Lexed := by
  fun_induction rescan pre bound stack out s with
  | case1 stack out s htoo => trivial
  | case2 stack out s _ stack' result hturn =>
    have hkeep := lexed_turn pre hlexed hout s
    rw [hturn] at hkeep
    exact hkeep
  | case3 stack out s _ stack' out' s' hturn ih =>
    have hkeep := lexed_turn pre hlexed hout s
    rw [hturn] at hkeep
    exact ih hkeep.1 hkeep.2

/-! ## Invocations -/

/-- What reading leaves of an invocation is lexed. -/
theorem lexed_of_run {head : Token} (hr : run pre head input s = (stack, .ok (some tokens) s')) : ∀ t ∈ tokens, t.Lexed := by
  have hstart : ({ input } : Stack).Lexed := nofun
  have hnothing : ∀ u ∈ ([] : List Token), u.Lexed := nofun
  cases ran_of_run hr with
  | unreplaced _ hnone => exact absurd rfl (hnone tokens s')
  | @read _ _ first _ s₁ s₂ _ hrepl _ hread =>
    obtain ⟨hlexed, hfirst⟩ := lexed_of_replacement hstart hrepl
    have hout := lexed_rescan pre s₂.state.table.size (hlexed.push head.value (hfirst first s₁ rfl)) hnothing s₂
    rw [hread] at hout
    exact hout

/-- What an invocation comes to are the tokens that reading left, at the place of the invocation. -/
theorem tokens_of_settle {head : Token} {result : Outcome (Option (List Token))} {ex : Expansion}
    (h : settle head stack result = .ok (some ex) s') :
    ∃ tokens s₁, result = .ok (some tokens) s₁ ∧ ex.tokens = Token.relocate tokens head := by
  unfold settle at h
  dsimp only at h
  split at h
  · split at h <;> cases h
  · rename_i tokens s₁
    split at h
    · cases h
      exact ⟨tokens, s₁, rfl, rfl⟩
    · cases h
  · split at h <;> cases h
  · split at h <;> cases h

namespace Expand

/-- An expansion consists of lexed tokens, moved to the place of the invocation. -/
theorem lexed_of_headWithin {start : Nat} {ex : Expansion} (h : headWithin pre tokens start s = .ok (some ex) s') :
    ∃ head input found, tokens.drop start = head :: input ∧ ex.tokens = Token.relocate found head ∧ ∀ t ∈ found, t.Lexed := by
  rcases headWithin_cases pre tokens start s with hnone | ⟨head, input, stack, result, hdrop, hrun, hsettle⟩
  · rw [hnone] at h
    cases h
  · rw [hsettle] at h
    obtain ⟨found, s₁, rfl, htokens⟩ := tokens_of_settle h
    exact ⟨head, input, found, hdrop, htokens, lexed_of_run hrun⟩

end Expand

end

end Prepass
