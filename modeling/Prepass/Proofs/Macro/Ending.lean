import Prepass.Proofs.Macro.Balance

/-!
# Expansion comes to an end

Two things could keep an expansion from ending: the turns of reading could go on for ever, and the expansion of arguments could nest without
end. Neither happens. Turns lower the rank of the stack, and a balanced stack has at most as many frames as there are macros, so
reading stops after some number of turns (`turns_stop`). Every level of argument expansion is one level nearer to the ceiling, and at the ceiling
no argument is expanded: whatever is put beyond the levels left is never asked for (`nested_eq_all`). The definitions
of `Expand.head` and `Expand.all`, which stop at a number of levels, therefore satisfy the recursion without that number
(`head_eq_headWithin_all`).
-/

namespace Prepass

open Expand

/-! ## Expanders of arguments that agree -/

section

variable {faults : List ExpandError} {pre pre' : List Token → Expand (List Token)} {level maxLevel : Int}

/-- Two ways of expanding arguments that come to the same at a level below a ceiling. -/
def AgreeAt (level maxLevel : Int) (pre pre' : List Token → Expand (List Token)) : Prop :=
  ∀ tokens s, s.state.level = level → s.state.maxLevel = maxLevel → pre tokens s = pre' tokens s

namespace Substitution

/-- A step of substitution asks an argument's expansion at the level it stands on only. -/
theorem substituteAt_congr (hagree : AgreeAt level maxLevel pre pre') (params : List String) (arguments : List Token)
    (t : Token) (before after out : List Token) {s : Logged Expander} (hlevel : s.state.level = level)
    (hmax : s.state.maxLevel = maxLevel) :
    substituteAt pre params arguments t before after out s = substituteAt pre' params arguments t before after out s := by
  unfold substituteAt
  cases params.idxOf? t.value with
  | none => rfl
  | some index =>
    dsimp only
    cases arguments[index]? with
    | none => rfl
    | some argument =>
      dsimp only
      unfold given
      split
      · rfl
      · split
        · rfl
        · exact bind_eq_bind (hagree _ s hlevel hmax) fun _ _ _ => rfl

/-- Substitution asks for the arguments' expansions at the level it stands on only: each of them comes back to that level, so that the next
one is asked for there too. -/
theorem substituteFrom_congr (hagree : AgreeAt level maxLevel pre pre') (hdrop : .nothingToDrop ∈ faults)
    (hpre' : ∀ tokens, Restores faults (pre' tokens)) (params : List String) (arguments before out rest : List Token)
    {s : Logged Expander} (hlevel : s.state.level = level) (hmax : s.state.maxLevel = maxLevel) :
    substituteFrom pre params arguments before out rest s = substituteFrom pre' params arguments before out rest s := by
  induction rest generalizing before out s with
  | nil => rfl
  | cons t rest ih =>
    have hat := substituteAt_congr hagree params arguments t before rest out hlevel hmax
    refine bind_eq_bind hat fun out' s' hs => ?_
    have hstate := ((Restores.hereditary hdrop).substituteAt hpre' params arguments t before rest out).state_of_ok hs
    exact ih (t :: before) out' (by rw [hstate, hlevel]) (by rw [hstate, hmax])

end Substitution

end

section

variable {faults : List ExpandError} {pre pre' : List Token → Expand (List Token)} {e : Expander} {input : List Token}
  {stack : Stack} {s : Logged Expander}

/-- Taking an invocation leaves the level, so that what its arguments become at that level is all that is asked for. -/
theorem instantiate_congr (hagree : AgreeAt e.level e.maxLevel pre pre') (hdrop : .nothingToDrop ∈ faults)
    (hpre' : ∀ tokens, Restores faults (pre' tokens)) (h : Balanced e input stack s) {count : Nat} {found : List Token}
    (hread : Arguments.read (·.kind = .eof) stack.lookahead = .list count found) (params : List String)
    (arguments body : List Token) (place : Token) :
    instantiate pre (stack.consume count).crossed (stack.consume count).missing params arguments body place s =
      instantiate pre' (stack.consume count).crossed (stack.consume count).missing params arguments body place s := by
  obtain ⟨hmissing, hall, hbal⟩ := h.consume hread
  unfold instantiate
  rw [bind_of_ok hall, bind_of_ok hall, hmissing]
  exact bind_eq_bind (Substitution.substituteFrom_congr hagree hdrop hpre' _ _ _ _ _ rfl rfl) fun _ _ _ => rfl

/-- What replaces a macro's name depends on the arguments' expansions at the level of the name only. -/
theorem replacement_congr (hagree : AgreeAt e.level e.maxLevel pre pre') (hdrop : .nothingToDrop ∈ faults)
    (hpre' : ∀ tokens, Restores faults (pre' tokens)) (h : Balanced e input stack s) (name : Token) :
    replacement pre name stack s = replacement pre' name stack s := by
  unfold replacement
  split
  · rfl
  · split
    · rfl
    · split
      · rfl
      · rfl
      · rename_i hread
        split
        · dsimp only
          rw [instantiate_congr hagree hdrop hpre' h hread]
        · rfl

/-- A turn of the loop depends on the arguments' expansions at its level only. -/
theorem turn_congr (hagree : AgreeAt e.level e.maxLevel pre pre') (hdrop : .nothingToDrop ∈ faults)
    (hpre' : ∀ tokens, Restores faults (pre' tokens)) (h : Balanced e input stack s) (out : List Token) :
    turn pre stack out s = turn pre' stack out s := by
  obtain ⟨frames, rest, taken⟩ := stack
  unfold turn
  split
  · rfl
  · rfl
  · rename_i name t unread below hframes
    simp only at hframes
    subst hframes
    split
    · unfold turnAt
      rw [replacement_congr hagree hdrop hpre' (Balanced.read { input := rest, taken } unread h)]
    · rfl

/-- Reading comes to the same with two ways of expanding arguments that agree at the level of the expander. -/
theorem rescan_congr (hagree : AgreeAt e.level e.maxLevel pre pre') (hdrop : .nothingToDrop ∈ faults)
    (hdeep : .tooDeep ∈ faults) (hpre' : ∀ tokens, Restores faults (pre' tokens)) (bound : Nat) (out : List Token)
    (h : Balanced e input stack s) : rescan pre bound stack out s = rescan pre' bound stack out s := by
  fun_induction rescan pre' bound stack out s with
  | case1 stack out s htoo =>
    rw [rescan, dif_pos htoo]
  | case2 stack out s hle stack' result hturn =>
    exact rescan_of_stop hle ((turn_congr hagree hdrop hpre' h out).trans hturn)
  | case3 stack out s hle stack' out' s' hturn ih =>
    have hkeep := turn_balanced hdrop hdeep hpre' out h
    rw [hturn] at hkeep
    rw [rescan_of_next hle ((turn_congr hagree hdrop hpre' h out).trans hturn)]
    exact ih hkeep

namespace Expand

/-- The expansion at a place comes to the same with two ways of expanding arguments that agree one level further in, if there is such a
level below the ceiling. -/
theorem headWithin_congr (hagree : s.state.level + 1 < s.state.maxLevel → AgreeAt (s.state.level + 1) s.state.maxLevel pre pre')
    (hdrop : .nothingToDrop ∈ faults) (hdeep : .tooDeep ∈ faults) (hpre' : ∀ tokens, Restores faults (pre' tokens))
    (tokens : List Token) (start : Nat) : headWithin pre tokens start s = headWithin pre' tokens start s := by
  have hrun (head : Token) (input : List Token) :
      run pre head input { s with state := s.state.enter } = run pre' head input { s with state := s.state.enter } := by
    have hstart := Balanced.start { s with state := s.state.enter } input
    unfold run
    dsimp only
    split
    · rfl
    · rename_i hshallow
      have hbelow : s.state.level + 1 < s.state.maxLevel := by
        simpa [isTooDeep, Stack.openFrames, Expander.enter] using hshallow
      have hagree' : AgreeAt s.state.enter.level s.state.enter.maxLevel pre pre' := hagree hbelow
      rw [replacement_congr hagree' hdrop hpre' hstart]
      split
      · rfl
      · rfl
      · rename_i stack tokens s₁ hrepl
        obtain ⟨hpush, -⟩ := pushed_balanced hdrop hpre' hstart hrepl
        split
        · rfl
        · rename_i hd
          rw [hd, stateAfter_ok] at hpush
          rw [rescan_congr hagree' hdrop hdeep hpre' _ _ hpush]
  unfold headWithin
  split
  · rfl
  · split
    · dsimp only
      rw [hrun]
    · rfl

/-- Expanding all tokens comes to the same with two ways of expanding the invocation at the head that agree on the expander at hand. -/
theorem allWith_congr {head head' : List Token → Expand (Option Expansion)} (hhead' : ∀ window, Restores faults (head' window))
    (hagree : ∀ window s', s'.state = s.state → head window s' = head' window s') (tokens : List Token) :
    allWith head tokens s = allWith head' tokens s := by
  induction hn : tokens.length using Nat.strongRecOn generalizing tokens s with
  | ind n ih =>
    cases tokens with
    | nil => rw [allWith, allWith]
    | cons t rest =>
      have hlater (k : Nat) (s' : Logged Expander) (hs : s'.state = s.state) :
          allWith head (rest.drop k) s' = allWith head' (rest.drop k) s' := by
        refine ih _ ?_ (fun window s'' hs'' => hagree window s'' (hs''.trans hs)) _ rfl
        simp only [← hn, List.length_drop, List.length_cons]
        omega
      rw [allWith, allWith]
      split
      · refine bind_eq_bind (hagree _ s rfl) fun found s' hs => ?_
        have hstate := (hhead' _).state_of_ok hs
        cases found with
        | none => exact bind_eq_bind (hlater 0 s' hstate) fun _ _ _ => rfl
        | some ex => exact bind_eq_bind (hlater ex.beyond s' hstate) fun _ _ _ => rfl
      · exact bind_eq_bind (hlater 0 s rfl) fun _ _ _ => rfl

end Expand

end

/-! ## Nesting -/

namespace Expand

/-- The expansion of arguments that nests so many levels deep, with something else put beyond them. -/
def nested (beyond : List Token → Expand (List Token)) : Nat → List Token → Expand (List Token)
  | 0 => beyond
  | levels + 1 => allWith fun window => headWithin (nested beyond levels) window

/-- An argument is expanded by the loop with one level less above it, and with none left by a refusal. -/
theorem argument_eq_nested (levels : Nat) : argument levels = nested (fun _ => throw .tooDeep) (levels + 1) := by
  induction levels with
  | zero => rfl
  | succ levels ih =>
    funext tokens
    rw [argument, ih]
    rfl

/-- One level further in, below the ceiling, there is one level less. -/
theorem levelsLeft_lt {e e' : Expander} (hbelow : e.level + 1 < e.maxLevel) (hlevel : e'.level = e.level + 1)
    (hmax : e'.maxLevel = e.maxLevel) : levelsLeft e' < levelsLeft e := by
  simp only [levelsLeft, hlevel, hmax]
  omega

/-- Whatever is put beyond more levels than are left is never asked for. The induction is on the levels left: one level further in there is
one less, and at the ceiling no argument is expanded. -/
theorem nested_eq_all (beyond : List Token → Expand (List Token)) (tokens : List Token) {levels : Nat} {s : Logged Expander}
    (h : levelsLeft s.state < levels) : nested beyond levels tokens s = all tokens s := by
  induction hn : levelsLeft s.state using Nat.strongRecOn generalizing beyond tokens levels s with
  | ind n ih =>
    cases levels with
    | zero => omega
    | succ levels =>
      refine allWith_congr (fun window => restores_head window 0) (fun window s' hs => ?_) tokens
      refine headWithin_congr (fun hbelow => ?_) (by simp) (by simp) (restores_argument_or_deep _) window 0
      intro tokens s'' hlevel hmax
      have hless := levelsLeft_lt hbelow hlevel hmax
      rw [hs] at hless ⊢
      have hfew : nested beyond levels tokens s'' = all tokens s'' := ih _ (by omega) beyond tokens (by omega) rfl
      rw [hfew, argument_eq_nested]
      exact (ih _ (by omega) _ tokens (by omega) rfl).symm

/-- Whatever is put beyond the levels left is never asked for by the expansion at a place. -/
theorem headWithin_nested_eq_head (beyond : List Token → Expand (List Token)) (tokens : List Token) (start : Nat) {levels : Nat}
    {s : Logged Expander} (h : levelsLeft s.state ≤ levels) :
    headWithin (nested beyond levels) tokens start s = head tokens start s := by
  refine headWithin_congr (fun hbelow => ?_) (by simp) (by simp) (restores_argument_or_deep _) tokens start
  intro tokens s' hlevel hmax
  have hless := levelsLeft_lt hbelow hlevel hmax
  rw [argument_eq_nested, nested_eq_all beyond tokens (by omega), nested_eq_all _ tokens (by omega)]

/-- Expansion restores the expander, also when running out of levels counts among its faults. -/
theorem restores_all_or_deep (tokens : List Token) : Restores [.tooDeep, .nothingToDrop] (all tokens) :=
  (restores_all tokens).mono (by simp)

/-- The recursion of expansion without a number of levels: arguments are expanded as all tokens are. -/
theorem head_eq_headWithin_all (tokens : List Token) (start : Nat) (s : Logged Expander) :
    head tokens start s = headWithin all tokens start s := by
  refine headWithin_congr (fun hbelow => ?_) (by simp) (by simp) restores_all_or_deep tokens start
  intro tokens s' hlevel hmax
  have hless := levelsLeft_lt hbelow hlevel hmax
  rw [argument_eq_nested, nested_eq_all _ tokens (by omega)]

/-! ## Turns -/

/-- So many turns of reading the frames of a stack, or fewer when reading stops before. -/
def turns (pre : List Token → Expand (List Token)) : Nat → Stack → List Token → Logged Expander → Turn
  | 0, stack, out, s => .next stack out s
  | n + 1, stack, out, s =>
    match turn pre stack out s with
    | .next stack out s => turns pre n stack out s
    | .stop stack result => .stop stack result

/-- Reading a balanced stack stops after some number of turns, with what reading to the end comes to. -/
theorem turns_stop {faults : List ExpandError} {pre : List Token → Expand (List Token)} {e : Expander} {input : List Token}
    (hdrop : .nothingToDrop ∈ faults) (hdeep : .tooDeep ∈ faults) (hpre : ∀ tokens, Restores faults (pre tokens)) {bound : Nat}
    (hbound : e.table.size ≤ bound) {stack : Stack} (out : List Token) {s : Logged Expander} (h : Balanced e input stack s) :
    ∃ n, turns pre n stack out s = .stop (rescan pre bound stack out s).1 (rescan pre bound stack out s).2 := by
  -- the induction is that of reading itself; balance rules out its case of too many frames
  fun_induction rescan pre bound stack out s with
  | case1 stack out s htoo =>
    have := h.length_frames_le
    omega
  | case2 stack out s _ stack' result hturn =>
    refine ⟨1, ?_⟩
    simp only [turns, hturn]
  | case3 stack out s _ stack' out' s' hturn ih =>
    have hkeep := turn_balanced hdrop hdeep hpre out h
    rw [hturn] at hkeep
    obtain ⟨n, hn⟩ := ih hkeep
    refine ⟨n + 1, ?_⟩
    simp only [turns, hturn, hn]

/-- The reading that an invocation starts, once its replacement is on the stack, stops after some number of turns. It stops with what
reading to the end comes to, and without a fault no frame is left. -/
theorem reading_stops {name : Token} {input body : List Token} {stack : Stack} {s s₁ s₂ : Logged Expander}
    (hrepl : replacement all name { input } s = (stack, .ok (some body) s₁))
    (hdesc : descend name.value (stack.push name.value body) s₁ = .ok () s₂) :
    ∃ n stack' result, turns all n (stack.push name.value body) [] s₂ = .stop stack' result ∧
      rescan all s₂.state.table.size (stack.push name.value body) [] s₂ = (stack', result) ∧
      ∀ out s₃, result = .ok out s₃ → stack'.frames = [] := by
  obtain ⟨hpush, -⟩ := pushed_balanced (by simp) restores_all_or_deep (Balanced.start s input) hrepl
  rw [hdesc, stateAfter_ok] at hpush
  obtain ⟨n, hn⟩ := turns_stop (by simp) (by simp) restores_all_or_deep hpush.size_le [] hpush
  have hkeep := rescan_balanced (by simp) (by simp) restores_all_or_deep hpush.size_le [] hpush
  refine ⟨n, _, _, hn, rfl, ?_⟩
  intro out s₃ hok
  rw [hok] at hkeep
  exact hkeep.2

end Expand

/-- Expanding the invocation at a place, and expanding all invocations, come to an end on every table, every list of tokens and every
ceiling. Arguments are expanded as all tokens are, and this recursion goes no deeper than the levels that are left: whatever stands beyond
them is never asked for. The reading of frames that an invocation starts stops after some number of turns, although crossed frames
enable their names again and frames that are read to their end are not counted; unless it stops at a fault, no frame is left. -/
theorem expansion_ends (tokens : List Token) (start : Nat) (s : Logged Expander) :
    Expand.head tokens start s = headWithin Expand.all tokens start s ∧
    (∀ beyond levels, levelsLeft s.state ≤ levels →
      headWithin (nested beyond levels) tokens start s = Expand.head tokens start s) ∧
    (∀ beyond levels, levelsLeft s.state < levels → nested beyond levels tokens s = Expand.all tokens s) ∧
    (∀ name input stack body s₁ s₂, replacement Expand.all name { input } s = (stack, .ok (some body) s₁) →
      descend name.value (stack.push name.value body) s₁ = .ok () s₂ →
      ∃ n stack' result, turns Expand.all n (stack.push name.value body) [] s₂ = .stop stack' result ∧
        rescan Expand.all s₂.state.table.size (stack.push name.value body) [] s₂ = (stack', result) ∧
        ∀ out s₃, result = .ok out s₃ → stack'.frames = []) := by
  refine ⟨head_eq_headWithin_all tokens start s, ?_, ?_, ?_⟩
  · intro beyond levels hle
    exact headWithin_nested_eq_head beyond tokens start hle
  · intro beyond levels hlt
    exact nested_eq_all beyond tokens hlt
  · intro name input stack body s₁ s₂ hrepl hdesc
    exact reading_stops hrepl hdesc

end Prepass
