import Prepass.Proofs.Macro.Ending
import Prepass.Proofs.Macro.Lexed
import Prepass.Proofs.Macro.Signs

/-!
# Expansion without faults

An omitted or a spelled argument takes signs before it off the tokens so far, which are there as long as they are no parameters themselves
(`Substitution.TakesOff`). On a table without such parameters (`Table.Plain`) an expansion therefore stops at no fault at all
(`Expand.all_faultless`). Its tokens are those it was given and lexed ones.
-/

namespace Prepass

open Expand

/-! ## Plain parameters -/

/-- A macro whose parameters are plain. -/
def Macro.Plain (m : Macro) : Prop :=
  ∀ params, m.params? = some params → PlainParams params

/-- An object-like macro has no parameters, so they are plain. -/
theorem Macro.plain_of_object {m : Macro} (h : m.shape = .object) : m.Plain := by
  intro params hparams
  rw [Macro.params?, h] at hparams
  cases hparams

namespace Table

/-- A table of macros whose parameters are plain. -/
def Plain (t : Table) : Prop :=
  ∀ entry ∈ t.predefined ++ t.user, entry.2.Plain

/-- What a plain table gives is plain. -/
theorem plain_of_get? {t : Table} (h : t.Plain) {name : String} {m : Macro} (hm : t.get? name = some m) : m.Plain :=
  h _ (mem_of_get? hm)

end Table

/-! ## Work from one expander -/

/-- Work that from the expander `e` leaves it as it found it, gives values with a property and stops only at some faults. -/
structure Yields (e : Expander) (faults : List ExpandError) {α : Type} (P : α → Prop) (x : Expand α) : Prop where
  of_ok {s s' : Logged Expander} {a : α} : s.state = e → x s = .ok a s' → s'.state = e ∧ P a
  of_error {s s' : Logged Expander} {err : ExpandError} : s.state = e → x s = .error err s' → s'.state = e ∧ err ∈ faults

namespace Yields

variable {e : Expander} {faults : List ExpandError} {α β : Type} {P : α → Prop} {Q : β → Prop} {x : Expand α} {f : α → Expand β}

/-- A value with the property leaves the expander alone. -/
theorem pure {a : α} (h : P a) : Yields e faults P (Pure.pure a : Expand α) := by
  constructor
  · intro s s' b hs hb
    cases hb
    exact ⟨hs, h⟩
  · intro s s' err _ herr
    cases herr

/-- In a row of work the last part gives the values, from what those before it have given. -/
theorem bind (hx : Yields e faults P x) (hf : ∀ a, P a → Yields e faults Q (f a)) : Yields e faults Q (x >>= f) := by
  constructor
  · intro s s' b hs hb
    obtain ⟨a, s₁, hr, hb⟩ := exists_of_bind_ok hb
    obtain ⟨hs₁, ha⟩ := hx.of_ok hs hr
    exact (hf a ha).of_ok hs₁ hb
  · intro s s' err hs herr
    rcases exists_of_bind_error herr with hr | ⟨a, s₁, hr, herr⟩
    · exact hx.of_error hs hr
    · obtain ⟨hs₁, ha⟩ := hx.of_ok hs hr
      exact (hf a ha).of_error hs₁ herr

/-- Work without faults gives a value. -/
theorem exists_ok (hx : Yields e [] P x) {s : Logged Expander} (hs : s.state = e) : ∃ a s', x s = .ok a s' ∧ s'.state = e ∧ P a := by
  cases hr : x s with
  | ok a s' => exact ⟨a, s', rfl, hx.of_ok hs hr⟩
  | error err s' => exact absurd (hx.of_error hs hr).2 List.not_mem_nil

end Yields

/-! ## Substitution -/

section

variable {params : List String} {before out : List Token} {e : Expander} {faults : List ExpandError}
  {pre : List Token → Expand (List Token)}

/-- What a token of a body adds stops at no fault but those of its arguments. -/
theorem added_yields (hpre : ∀ tokens, Yields e faults (fun _ => True) (pre tokens)) (params : List String) (arguments before : List Token)
    (t : Token) (rest : List Token) : Yields e faults (fun _ => True) (Substitution.added pre params arguments before t rest) := by
  have hinserted (pasted : Bool) (binding : Option Token) : Yields e faults (fun _ => True) (Substitution.inserted pre pasted binding) := by
    cases binding with
    | none => exact .pure trivial
    | some argument =>
      rw [Substitution.inserted]
      split
      · exact .pure trivial
      · exact (hpre _).bind fun _ _ => .pure trivial
  unfold Substitution.added
  split
  · exact .pure trivial
  · split
    · exact .pure trivial
    · exact hinserted _ _

/-- A token of the body takes off only what is there, and one that is no parameter is among the tokens afterwards. -/
theorem substituteAt_yields (hpre : ∀ tokens, Yields e faults (fun _ => True) (pre tokens)) (hplain : PlainParams params)
    (h : Trailing params before out) (arguments : List Token) (t : Token) (after : List Token) :
    Yields e faults (Trailing params (t :: before)) (Substitution.substituteAt pre params arguments t before after out) := by
  obtain ⟨earlier, -, hat⟩ := (Substitution.takesOff_of_trailing pre arguments hplain h t after).leaves
  have hyields : Yields e faults (fun _ => True) (Substitution.substituteAt pre params arguments t before after out) := by
    rw [hat, map_eq_pure_bind]
    refine (added_yields hpre params arguments before t after).bind fun new _ => ?_
    exact .pure trivial
  exact ⟨fun hs hok => ⟨(hyields.of_ok hs hok).1, Substitution.trailing_substituteAt h hok⟩, hyields.of_error⟩

/-- The rest of a body drops a token only where one is, since what it takes off stands right before it. -/
theorem substituteFrom_yields (hpre : ∀ tokens, Yields e faults (fun _ => True) (pre tokens)) (hplain : PlainParams params)
    (h : Trailing params before out) (arguments rest : List Token) :
    Yields e faults (fun _ => True) (Substitution.substituteFrom pre params arguments before out rest) := by
  induction rest generalizing before out with
  | nil => exact .pure trivial
  | cons t rest ih => exact (substituteAt_yields hpre hplain h arguments t rest).bind fun out hout => ih hout

end

/-! ## Turns -/

/-- A way of expanding arguments that leaves the expander alone, and on plain tables stops only by nesting too deeply. -/
structure Careful (pre : List Token → Expand (List Token)) : Prop where
  restores (tokens : List Token) : Restores [.tooDeep, .nothingToDrop] (pre tokens)
  yields {e : Expander} (h : e.table.Plain) (tokens : List Token) : Yields e [.tooDeep] (fun _ => True) (pre tokens)

section

variable {pre : List Token → Expand (List Token)} {e : Expander} {input out : List Token} {stack stack' : Stack} {s : Logged Expander}

/-- A replacement stops at no fault but nesting too deeply. -/
theorem replacement_faultless (hpre : Careful pre) (hplain : e.table.Plain) (h : Balanced e input stack s) {name : Token}
    {err : ExpandError} {s' : Logged Expander} (hr : replacement pre name stack s = (stack', .error err s')) : err = .tooDeep := by
  unfold replacement at hr
  split at hr
  · cases hr
  · rename_i m hget
    have hm : m.Plain := Table.plain_of_get? (t := s.state.table) (by rw [h.state_eq]; exact hplain) hget
    split at hr
    · cases hr
    · rename_i params hparams
      split at hr
      · cases hr
      · cases hr
      · rename_i count arguments hread
        split at hr
        · simp only [Prod.mk.injEq] at hr
          obtain ⟨rfl, hr⟩ := hr
          obtain ⟨hmissing, hall, -⟩ := h.consume hread
          have hholding : (e.holding (stack.consume count).stack.names).table.Plain := hplain
          have hyields : Yields (e.holding (stack.consume count).stack.names) [.tooDeep] (fun _ => True) (do
                let body ← Substitution.substitute pre params (Arguments.fold params.length arguments) m.body
                return some (relex (Paste.paste body) name)) :=
            (substituteFrom_yields (hpre.yields hholding) (hm params hparams) (trailing_nil params) _ _).bind fun _ _ => .pure trivial
          unfold instantiate at hr
          rw [bind_of_ok hall, hmissing] at hr
          simp only [ne_eq, not_true_eq_false, if_false] at hr
          simpa using (hyields.of_error rfl hr).2
        · cases hr

/-- A turn goes on, or it stops at no fault but nesting too deeply. -/
def Expand.Turn.Faultless : Turn → Prop
  | .stop _ (.error err _) => err = .tooDeep
  | _ => True

/-- What becomes of a token stops at no fault but nesting too deeply. -/
theorem turnAt_faultless (hpre : Careful pre) (hplain : e.table.Plain) (h : Balanced e input stack s) (t : Token) :
    (turnAt pre t stack out s).Faultless := by
  unfold turnAt
  split
  · rename_i hr
    exact replacement_faultless hpre hplain h hr
  · trivial
  · rename_i hr
    split
    · rename_i hd
      exact (pushed_balanced (by simp) hpre.restores h hr).2 _ _ hd
    · trivial

/-- A turn stops at no fault but nesting too deeply. -/
theorem turn_faultless (hpre : Careful pre) (hplain : e.table.Plain) (h : Balanced e input stack s) (out : List Token) :
    (turn pre stack out s).Faultless := by
  obtain ⟨frames, rest, taken⟩ := stack
  unfold turn
  split
  · trivial
  · rename_i name below hframes
    simp only at hframes
    subst hframes
    obtain ⟨hen, -⟩ := Balanced.pop { input := rest, taken } h
    rw [hen]
    trivial
  · rename_i name t unread below hframes
    simp only at hframes
    subst hframes
    split
    · exact turnAt_faultless hpre hplain (Balanced.read { input := rest, taken } unread h) t
    · trivial

/-- Reading to the end stops at no fault but nesting too deeply. -/
theorem rescan_faultless (hpre : Careful pre) (hplain : e.table.Plain) {bound : Nat} (hbound : e.table.size ≤ bound)
    (h : Balanced e input stack s) (out : List Token) :
    (Turn.stop (rescan pre bound stack out s).1 (rescan pre bound stack out s).2).Faultless := by
  fun_induction rescan pre bound stack out s with
  | case1 stack out s htoo =>
    have := h.length_frames_le
    omega
  | case2 stack out s _ stack' result hturn =>
    have hkeep := turn_faultless hpre hplain h out
    rwa [hturn] at hkeep
  | case3 stack out s _ stack' out' s' hturn ih =>
    have hbal := turn_balanced (by simp) (by simp) hpre.restores out h
    rw [hturn] at hbal
    exact ih hbal

/-! ## Invocations -/

/-- Expanding an invocation stops at no fault but nesting too deeply. -/
theorem run_faultless (hpre : Careful pre) (hplain : s.state.table.Plain) (head : Token) {err : ExpandError} {s' : Logged Expander}
    (hr : run pre head input s = (stack, .error err s')) : err = .tooDeep := by
  have hstart := Balanced.start s input
  cases ran_of_run hr with
  | tooDeep => rfl
  | unreplaced hrepl _ => exact replacement_faultless hpre hplain hstart hrepl
  | refused hrepl hd => exact (pushed_balanced (by simp) hpre.restores hstart hrepl).2 _ _ hd
  | stopped hrepl hd hread =>
    obtain ⟨hpush, -⟩ := pushed_balanced (by simp) hpre.restores hstart hrepl
    rw [hd, stateAfter_ok] at hpush
    have hfaultless := rescan_faultless hpre hplain hpush.size_le hpush []
    rw [hread] at hfaultless
    exact hfaultless

namespace Expand

/-- On a plain table the invocation at a place is expanded without a fault. -/
theorem headWithin_faultless (hpre : Careful pre) (hplain : e.table.Plain) (tokens : List Token) (start : Nat) :
    Yields e [] (fun found => ∀ ex, found = some ex → ∀ t ∈ ex.tokens, t.Lexed) (headWithin pre tokens start) := by
  have hrestores := restores_headWithin hpre.restores tokens start
  constructor
  · rintro s s' found rfl hok
    refine ⟨hrestores.state_of_ok hok, ?_⟩
    rintro ex rfl
    obtain ⟨head, input, found, -, htokens, hlexed⟩ := lexed_of_headWithin hok
    rw [htokens]
    exact Token.lexed_relocate hlexed head
  · rintro s s' err rfl herr
    refine ⟨hrestores.state_of_error herr, ?_⟩
    rcases headWithin_cases pre tokens start s with hnone | ⟨head, input, stack, result, -, hrun, hsettle⟩
    · rw [hnone] at herr
      cases herr
    · obtain ⟨hbal, -⟩ := run_balanced (by simp) (by simp) hpre.restores head input { s with state := s.state.enter } hrun
      rw [hsettle] at herr
      obtain ⟨hdeep, s₁, rfl⟩ := (settle_balanced head hbal).2.1 err s' herr
      exact absurd (run_faultless (s := { s with state := s.state.enter }) hpre hplain head hrun) hdeep

/-- Expanding all tokens leaves tokens that were given and lexed ones, without a fault, as long as the invocation at the head is
expanded so. -/
theorem allWith_faultless {head : List Token → Expand (Option Expansion)}
    (hhead : ∀ window, Yields e [] (fun found => ∀ ex, found = some ex → ∀ t ∈ ex.tokens, t.Lexed) (head window)) (tokens : List Token) :
    Yields e [] (fun out => ∀ t ∈ out, t ∈ tokens ∨ t.Lexed) (allWith head tokens) := by
  induction hn : tokens.length using Nat.strongRecOn generalizing tokens with
  | ind n ih =>
    cases tokens with
    | nil =>
      rw [allWith]
      refine .pure ?_
      intro t ht
      cases ht
    | cons t rest =>
      have hlater (k : Nat) : Yields e [] (fun out => ∀ u ∈ out, u ∈ rest ∨ u.Lexed) (allWith head (rest.drop k)) := by
        have hless : (rest.drop k).length < n := by
          simp only [← hn, List.length_drop, List.length_cons]
          omega
        have hdrop := ih _ hless (rest.drop k) rfl
        exact ⟨fun hs hok => ⟨(hdrop.of_ok hs hok).1, fun u hu => ((hdrop.of_ok hs hok).2 u hu).imp_left List.mem_of_mem_drop⟩,
          hdrop.of_error⟩
      have hkept : Yields e [] (fun out => ∀ u ∈ out, u ∈ t :: rest ∨ u.Lexed) (do return t :: (← allWith head rest)) := by
        refine (hlater 0).bind fun out hout => .pure ?_
        intro u hu
        rcases List.mem_cons.mp hu with rfl | hu
        · exact .inl (by simp)
        · exact (hout u hu).imp_left (List.mem_cons_of_mem t)
      rw [allWith]
      split
      · refine (hhead _).bind fun found hfound => ?_
        cases found with
        | none => exact hkept
        | some ex =>
          refine (hlater ex.beyond).bind fun out hout => .pure ?_
          intro u hu
          rcases List.mem_append.mp hu with hu | hu
          · exact .inr (hfound ex rfl u hu)
          · exact (hout u hu).imp_left (List.mem_cons_of_mem t)
      · exact hkept

/-- Arguments are expanded with care at every level. -/
theorem careful_argument (levels : Nat) : Careful (argument levels) := by
  have hweak {x : Expand (List Token)} {P : List Token → Prop} {e : Expander} (hx : Yields e [] P x) :
      Yields e [.tooDeep] (fun _ => True) x :=
    ⟨fun hs hok => ⟨(hx.of_ok hs hok).1, trivial⟩, fun hs herr => absurd (hx.of_error hs herr).2 List.not_mem_nil⟩
  induction levels with
  | zero =>
    have hthrow : Careful fun _ => throw .tooDeep := by
      refine ⟨fun _ => .throw (by simp), fun _ _ => ⟨?_, ?_⟩⟩
      · intro s s' a _ hok
        cases hok
      · intro s s' err hs herr
        cases herr
        exact ⟨hs, by simp⟩
    exact ⟨restores_argument_or_deep 0, fun hplain tokens =>
      hweak (allWith_faultless (fun window => headWithin_faultless hthrow hplain window 0) tokens)⟩
  | succ levels ih =>
    exact ⟨restores_argument_or_deep _, fun hplain tokens =>
      hweak (allWith_faultless (fun window => headWithin_faultless ih hplain window 0) tokens)⟩

/-- On a plain table the invocation at a place is expanded without a fault, into lexed tokens. -/
theorem head_faultless (hplain : e.table.Plain) (tokens : List Token) (start : Nat) :
    Yields e [] (fun found => ∀ ex, found = some ex → ∀ t ∈ ex.tokens, t.Lexed) (head tokens start) := by
  have hwithin := headWithin_faultless (careful_argument (levelsLeft e)) hplain tokens start
  constructor
  · rintro s s' found rfl hok
    exact hwithin.of_ok rfl hok
  · rintro s s' err rfl herr
    exact hwithin.of_error rfl herr

/-- On a plain table all tokens are expanded without a fault, into given and lexed ones. -/
theorem all_faultless (hplain : e.table.Plain) (tokens : List Token) :
    Yields e [] (fun out => ∀ t ∈ out, t ∈ tokens ∨ t.Lexed) (all tokens) :=
  allWith_faultless (fun window => head_faultless hplain window 0) tokens

end Expand

end

end Prepass
