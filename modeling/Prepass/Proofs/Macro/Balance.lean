import Prepass.Proofs.Macro.Restoring

/-!
# Expansion is balanced

While an invocation is expanded, the disabled names are the names of the frames on the stack in front of the names disabled at the start,
and nothing else of the expander changes (`Balanced`). A turn of reading keeps this, however it ends (`turn_balanced`), hence so does
reading to the end (`rescan_balanced`), and the unwinding that follows enables exactly what is left. Arguments are expanded on
the same table in between; that they leave it alone is the statement itself, one level further in.

The frames have different names, each with a macro, so there are never more frames than macros. What is taken from the input is there
and ends before the end mark.
-/

namespace Prepass

open Expand

/-! ## The invariant -/

/-- How a stack and an expander stand while an invocation is expanded, from the expander `e` and the input `input` on. -/
structure Balanced (e : Expander) (input : List Token) (stack : Stack) (s : Logged Expander) : Prop where
  state_eq : s.state = e.holding stack.names
  nodup : stack.names.Nodup
  defined : stack.names ⊆ e.table.names
  taken_le : stack.taken ≤ input.length
  input_eq : stack.input = input.drop stack.taken
  not_eof : ∀ t ∈ input.take stack.taken, t.kind ≠ .eof

namespace Balanced

variable {e : Expander} {input : List Token} {stack : Stack} {s s' : Logged Expander}

/-- A stack without frames is balanced. -/
theorem start (s : Logged Expander) (input : List Token) : Balanced s.state input { input } s where
  state_eq := rfl
  nodup := List.nodup_nil
  defined := List.nil_subset _
  taken_le := Nat.zero_le _
  input_eq := rfl
  not_eof := by simp

/-- Only the expander counts, not what was told. -/
theorem of_state_eq (h : Balanced e input stack s) (hs : s'.state = s.state) : Balanced e input stack s' :=
  { h with state_eq := hs.trans h.state_eq }

/-- There are at most as many frames as macros, because the frames have different names. -/
theorem length_frames_le (h : Balanced e input stack s) : stack.frames.length ≤ e.table.size := by
  have hle := h.nodup.length_le_of_subset h.defined
  rw [Table.length_names] at hle
  simpa [Stack.names] using hle

/-- With the names of frames disabled, the table has no fewer macros. -/
theorem size_le (h : Balanced e input stack s) : e.table.size ≤ s.state.table.size := by
  rw [h.state_eq]
  exact Nat.le_refl _

/-- A frame with a new name may be put on top, with its name disabled. -/
theorem push (h : Balanced e input stack s) {name : String} (hnew : name ∉ stack.names) (hdef : name ∈ e.table.names)
    (tokens : List Token) : Balanced e input (stack.push name tokens) { s with state := e.holding (name :: stack.names) } where
  state_eq := rfl
  nodup := List.nodup_cons.mpr ⟨hnew, h.nodup⟩
  defined := List.cons_subset.mpr ⟨hdef, h.defined⟩
  taken_le := h.taken_le
  input_eq := h.input_eq
  not_eof := h.not_eof

/-- The top frame may be taken off, with its name enabled. -/
theorem pop (stack : Stack) {name : String} {unread : List Token} {below : List Frame}
    (h : Balanced e input { stack with frames := { name, unread } :: below } s) :
    enable name s = .ok () { s with state := e.holding (below.map Frame.name) } ∧
      Balanced e input { stack with frames := below } { s with state := e.holding (below.map Frame.name) } := by
  refine ⟨enable_holding h.state_eq, ?_⟩
  exact {
    state_eq := rfl
    nodup := (List.nodup_cons.mp h.nodup).2
    defined := (List.cons_subset.mp h.defined).2
    taken_le := h.taken_le
    input_eq := h.input_eq
    not_eof := h.not_eof }

/-- How much of the top frame is read does not matter. -/
theorem read (stack : Stack) {name : String} {unread : List Token} (unread' : List Token) {below : List Frame}
    (h : Balanced e input { stack with frames := { name, unread } :: below } s) :
    Balanced e input { stack with frames := { name, unread := unread' } :: below } s where
  state_eq := h.state_eq
  nodup := h.nodup
  defined := h.defined
  taken_le := h.taken_le
  input_eq := h.input_eq
  not_eof := h.not_eof

/-- The tokens of an argument list may be taken off, with the names of the frames crossed enabled; none of the tokens is missing. -/
theorem consume (h : Balanced e input stack s) {count : Nat} {arguments : List Token}
    (hread : Arguments.read (·.kind = .eof) stack.lookahead = .list count arguments) :
    (stack.consume count).missing = 0 ∧
      enableAll (stack.consume count).crossed s = .ok () { s with state := e.holding (stack.consume count).stack.names } ∧
      Balanced e input (stack.consume count).stack { s with state := e.holding (stack.consume count).stack.names } := by
  obtain ⟨-, hle, hstop⟩ := Arguments.within_of_read hread
  obtain ⟨more, hinput, htaken, hfrom, hthere⟩ := stack.consume_input count
  obtain ⟨hmore, hmissing⟩ := hthere hle
  have hnames := stack.names_consume count
  have hlen : stack.input.length = input.length - stack.taken := by rw [h.input_eq, List.length_drop]
  refine ⟨hmissing, enableAll_holding (by rw [← hnames]; exact h.state_eq), ?_⟩
  refine ⟨rfl, ?_, ?_, ?_, ?_, ?_⟩
  · have := h.nodup
    rw [hnames] at this
    exact (List.nodup_append.mp this).2.1
  · have := h.defined
    rw [hnames] at this
    exact (List.append_subset.mp this).2
  · have := h.taken_le
    omega
  · rw [hinput, htaken, h.input_eq, List.drop_drop]
  · intro t ht
    rw [htaken, List.take_add, ← h.input_eq, List.mem_append] at ht
    rcases ht with ht | ht
    · exact h.not_eof t ht
    · simpa using hstop t (hfrom t ht)

/-- Unwinding a stack enables the names that are left. -/
theorem unwind (h : Balanced e input stack s) : unwind stack s = .ok () { s with state := e } := by
  have hs : s.state = e.holding (stack.names ++ []) := by rw [List.append_nil]; exact h.state_eq
  exact enableAll_holding hs

end Balanced

/-! ## Replacements -/

variable {faults : List ExpandError} {pre : List Token → Expand (List Token)} {e : Expander} {input : List Token}

/-- Putting the arguments in place keeps the balance of the stack without them. -/
theorem instantiate_balanced (hdrop : .nothingToDrop ∈ faults) (hpre : ∀ tokens, Restores faults (pre tokens)) {stack : Stack}
    {s : Logged Expander} (h : Balanced e input stack s) {count : Nat} {found : List Token}
    (hread : Arguments.read (·.kind = .eof) stack.lookahead = .list count found) (params : List String)
    (arguments body : List Token) (place : Token) {result : Outcome (Option (List Token))}
    (hr : instantiate pre (stack.consume count).crossed (stack.consume count).missing params arguments body place s = result) :
    Balanced e input (stack.consume count).stack (stateAfter result) ∧ ∀ err s', result = .error err s' → err ∈ faults := by
  obtain ⟨hmissing, hall, hbal⟩ := h.consume hread
  have hrest : Restores faults (do
      let body ← Substitution.substitute pre params (Arguments.fold params.length arguments) body
      return some (relex (Paste.paste body) place)) :=
    ((Restores.hereditary hdrop).substitute hpre _ _ _).bind fun _ => .pure _
  unfold instantiate at hr
  rw [bind_of_ok hall, hmissing] at hr
  simp only [ne_eq, not_true_eq_false, if_false] at hr
  subst hr
  exact ⟨hbal.of_state_eq (hrest.state_eq _), fun _ _ he => hrest.fault_mem he⟩

/-- A replacement keeps the balance, whatever comes of it; a name that has one is not held by a frame and has a macro. -/
theorem replacement_balanced (hdrop : .nothingToDrop ∈ faults) (hpre : ∀ tokens, Restores faults (pre tokens)) {name : Token}
    {stack stack' : Stack} {s : Logged Expander} (h : Balanced e input stack s) {result : Outcome (Option (List Token))}
    (hr : replacement pre name stack s = (stack', result)) :
    Balanced e input stack' (stateAfter result) ∧ (∀ err s', result = .error err s' → err ∈ faults) ∧
      (∀ tokens s', result = .ok (some tokens) s' → name.value ∉ stack'.names ∧ name.value ∈ e.table.names) := by
  unfold replacement at hr
  split at hr
  · cases hr
    exact ⟨h, nofun, nofun⟩
  · rename_i m hget
    obtain ⟨hnot, hdef⟩ := Table.name_of_get? hget
    rw [h.state_eq] at hnot hdef
    have hnew : name.value ∉ stack.names := fun hmem => hnot (List.mem_append_left _ hmem)
    split at hr
    · cases hr
      exact ⟨h, nofun, fun _ _ _ => ⟨hnew, hdef⟩⟩
    · split at hr
      · cases hr
        exact ⟨h, nofun, nofun⟩
      · cases hr
        exact ⟨h.of_state_eq rfl, nofun, nofun⟩
      · rename_i count arguments hread
        split at hr
        · simp only [Prod.mk.injEq] at hr
          obtain ⟨rfl, hr⟩ := hr
          obtain ⟨hbal, hfault⟩ := instantiate_balanced hdrop hpre h hread _ arguments _ name hr
          refine ⟨hbal, hfault, fun _ _ _ => ⟨fun hmem => hnew ?_, hdef⟩⟩
          rw [stack.names_consume count]
          exact List.mem_append_right _ hmem
        · cases hr
          exact ⟨h.of_state_eq rfl, nofun, nofun⟩

/-! ## Turns -/

/-- What a turn is to keep: it goes on with the balance kept, or it stops with the balance kept, either without frames or at one of
some faults. -/
def Expand.Turn.Keeps (faults : List ExpandError) (e : Expander) (input : List Token) : Turn → Prop
  | .next stack _ s => Balanced e input stack s
  | .stop stack (.ok _ s) => Balanced e input stack s ∧ stack.frames = []
  | .stop stack (.error err s) => Balanced e input stack s ∧ err ∈ faults

/-- Disabling the name of a new frame keeps the balance, also when the stack is then too deep. -/
theorem descend_balanced {stack : Stack} {s : Logged Expander} (h : Balanced e input stack s) {name : String}
    (hnew : name ∉ stack.names) (hdef : name ∈ e.table.names) (tokens : List Token) :
    Balanced e input (stack.push name tokens) (stateAfter (descend name (stack.push name tokens) s)) ∧
      ∀ err s', descend name (stack.push name tokens) s = .error err s' → err = .tooDeep := by
  unfold descend
  rw [disable_holding name h.state_eq]
  dsimp only
  split
  · refine ⟨h.push hnew hdef tokens, ?_⟩
    intro err s' he
    cases he
    rfl
  · exact ⟨h.push hnew hdef tokens, nofun⟩

/-- A replacement that is put on the stack for its name keeps the balance, also when the stack is then too deep. -/
theorem pushed_balanced (hdrop : .nothingToDrop ∈ faults) (hpre : ∀ tokens, Restores faults (pre tokens)) {name : Token}
    {stack stack' : Stack} {s s' : Logged Expander} (h : Balanced e input stack s) {tokens : List Token}
    (hr : replacement pre name stack s = (stack', .ok (some tokens) s')) :
    Balanced e input (stack'.push name.value tokens) (stateAfter (descend name.value (stack'.push name.value tokens) s')) ∧
      ∀ err s'', descend name.value (stack'.push name.value tokens) s' = .error err s'' → err = .tooDeep := by
  obtain ⟨hbal, -, hname⟩ := replacement_balanced hdrop hpre h hr
  obtain ⟨hnew, hdef⟩ := hname _ _ rfl
  exact descend_balanced hbal hnew hdef tokens

/-- A turn at a token keeps the stack balanced, or stops as it may. -/
theorem turnAt_balanced (hdrop : .nothingToDrop ∈ faults) (hdeep : .tooDeep ∈ faults)
    (hpre : ∀ tokens, Restores faults (pre tokens)) (t : Token) {stack : Stack} (out : List Token) {s : Logged Expander}
    (h : Balanced e input stack s) : (turnAt pre t stack out s).Keeps faults e input := by
  unfold turnAt
  split
  · rename_i hr
    obtain ⟨hbal, hfault, -⟩ := replacement_balanced hdrop hpre h hr
    exact ⟨hbal, hfault _ _ rfl⟩
  · rename_i hr
    exact (replacement_balanced hdrop hpre h hr).1
  · rename_i hr
    obtain ⟨hpush, hfault⟩ := pushed_balanced hdrop hpre h hr
    split
    · rename_i hd
      rw [hd] at hpush
      exact ⟨hpush, hfault _ _ hd ▸ hdeep⟩
    · rename_i hd
      rw [hd] at hpush
      exact hpush

/-- A turn keeps the balance, however it ends. -/
theorem turn_balanced (hdrop : .nothingToDrop ∈ faults) (hdeep : .tooDeep ∈ faults)
    (hpre : ∀ tokens, Restores faults (pre tokens)) {stack : Stack} (out : List Token) {s : Logged Expander}
    (h : Balanced e input stack s) : (turn pre stack out s).Keeps faults e input := by
  obtain ⟨frames, rest, taken⟩ := stack
  unfold turn
  split
  · rename_i hframes
    exact ⟨h, hframes⟩
  · rename_i name below hframes
    simp only at hframes
    subst hframes
    obtain ⟨hen, hbal⟩ := Balanced.pop { input := rest, taken } h
    rw [hen]
    exact hbal
  · rename_i name t unread below hframes
    simp only at hframes
    subst hframes
    have hread := Balanced.read { input := rest, taken } unread h
    split
    · exact turnAt_balanced hdrop hdeep hpre t out hread
    · exact hread

/-- Reading to the end keeps the balance, however it ends: what a turn keeps, all turns keep, and the bound on frames is not reached. -/
theorem rescan_balanced (hdrop : .nothingToDrop ∈ faults) (hdeep : .tooDeep ∈ faults)
    (hpre : ∀ tokens, Restores faults (pre tokens)) {bound : Nat} (hbound : e.table.size ≤ bound) {stack : Stack}
    (out : List Token) {s : Logged Expander} (h : Balanced e input stack s) :
    (Turn.stop (rescan pre bound stack out s).1 (rescan pre bound stack out s).2).Keeps faults e input := by
  fun_induction rescan pre bound stack out s with
  | case1 stack out s htoo =>
    -- every frame of a balanced stack disables another name of the table, so there are no more frames than names
    have := h.length_frames_le
    omega
  | case2 stack out s _ stack' result hturn =>
    have := turn_balanced hdrop hdeep hpre out h
    rwa [hturn] at this
  | case3 stack out s _ stack' out' s' hturn ih =>
    have := turn_balanced hdrop hdeep hpre out h
    rw [hturn] at this
    exact ih this

/-! ## Invocations -/

/-- Expanding an invocation keeps the balance of its stack, and stops only at one of the faults. -/
theorem run_balanced (hdrop : .nothingToDrop ∈ faults) (hdeep : .tooDeep ∈ faults)
    (hpre : ∀ tokens, Restores faults (pre tokens)) (head : Token) (input : List Token) (s : Logged Expander) {stack : Stack}
    {result : Outcome (Option (List Token))} (hr : run pre head input s = (stack, result)) :
    Balanced s.state input stack (stateAfter result) ∧ ∀ err s', result = .error err s' → err ∈ faults := by
  have hstart := Balanced.start s input
  cases ran_of_run hr with
  | tooDeep =>
    refine ⟨hstart, ?_⟩
    rintro err s' ⟨⟩
    exact hdeep
  | unreplaced hrepl hnone =>
    obtain ⟨hbal, hfault, -⟩ := replacement_balanced hdrop hpre hstart hrepl
    exact ⟨hbal, hfault⟩
  | refused hrepl hd =>
    obtain ⟨hpush, hfault⟩ := pushed_balanced hdrop hpre hstart hrepl
    rw [hd] at hpush
    refine ⟨hpush, ?_⟩
    rintro err s' ⟨⟩
    exact hfault _ _ hd ▸ hdeep
  | read hrepl hd hread =>
    obtain ⟨hpush, -⟩ := pushed_balanced hdrop hpre hstart hrepl
    rw [hd, stateAfter_ok] at hpush
    have hkeep := rescan_balanced hdrop hdeep hpre hpush.size_le [] hpush
    rw [hread] at hkeep
    exact ⟨hkeep.1, nofun⟩
  | stopped hrepl hd hread =>
    obtain ⟨hpush, -⟩ := pushed_balanced hdrop hpre hstart hrepl
    rw [hd, stateAfter_ok] at hpush
    have hkeep := rescan_balanced hdrop hdeep hpre hpush.size_le [] hpush
    rw [hread] at hkeep
    refine ⟨hkeep.1, ?_⟩
    rintro err s' ⟨⟩
    exact hkeep.2

/-- Settling an invocation leaves the expander from before it, and no fault but those other than nesting too deeply comes through. -/
theorem settle_balanced (head : Token) {s : Logged Expander} {stack : Stack} {result : Outcome (Option (List Token))}
    (h : Balanced s.state.enter input stack (stateAfter result)) :
    (stateAfter (settle head stack result)).state = s.state ∧
      (∀ err s', settle head stack result = .error err s' → err ≠ .tooDeep ∧ ∃ s'', result = .error err s'') ∧
      (∀ ex s', settle head stack result = .ok (some ex) s' → ex.beyond = stack.taken) := by
  cases result with
  | ok tokens s₁ =>
    have hun := h.unwind
    rw [stateAfter_ok] at hun
    cases tokens with
    | none =>
      simp only [settle, hun]
      exact ⟨Expander.leave_enter _, nofun, nofun⟩
    | some tokens =>
      simp only [settle, hun]
      refine ⟨Expander.leave_enter _, nofun, ?_⟩
      intro ex s' he
      cases he
      rfl
  | error err s₁ =>
    by_cases hdeep : err = .tooDeep
    · subst hdeep
      have hnoted : Balanced s.state.enter input stack (s₁.note (.tooDeep head.value s₁.state.maxLevel)) := h.of_state_eq rfl
      simp only [settle, hnoted.unwind]
      exact ⟨Expander.leave_enter _, nofun, nofun⟩
    · have hun := h.unwind
      rw [stateAfter_error] at hun
      simp only [settle, hun]
      refine ⟨Expander.leave_enter _, ?_, nofun⟩
      intro err' s' he
      cases he
      exact ⟨hdeep, s₁, rfl⟩

namespace Expand

/-- The expansion at a place restores the expander when expanding arguments does; that arguments nest too deeply does not come out. -/
theorem restores_headWithin (hpre : ∀ tokens, Restores [.tooDeep, .nothingToDrop] (pre tokens)) (tokens : List Token)
    (start : Nat) : Restores [.nothingToDrop] (headWithin pre tokens start) := by
  constructor
  · intro s
    rcases headWithin_cases pre tokens start s with hnone | ⟨head, input, stack, result, -, hrun, hsettle⟩
    · rw [hnone]
      rfl
    · obtain ⟨hbal, -⟩ := run_balanced (by simp) (by simp) hpre head input { s with state := s.state.enter } hrun
      rw [hsettle]
      exact (settle_balanced head hbal).1
  · intro s s' err h
    rcases headWithin_cases pre tokens start s with hnone | ⟨head, input, stack, result, -, hrun, hsettle⟩
    · rw [hnone] at h
      cases h
    · obtain ⟨hbal, hfault⟩ := run_balanced (by simp) (by simp) hpre head input { s with state := s.state.enter } hrun
      rw [hsettle] at h
      obtain ⟨hdeep, s'', hr⟩ := (settle_balanced head hbal).2.1 err s' h
      have hmem := hfault err s'' hr
      simpa [hdeep] using hmem

/-- The tokens that an expansion takes up beyond its name are there, and none of them is the end mark. -/
theorem beyond_of_headWithin (hpre : ∀ tokens, Restores [.tooDeep, .nothingToDrop] (pre tokens)) {tokens : List Token}
    {start : Nat} {s s' : Logged Expander} {ex : Expansion} (h : headWithin pre tokens start s = .ok (some ex) s') :
    ∃ head input, tokens.drop start = head :: input ∧ ex.beyond ≤ input.length ∧ ∀ t ∈ input.take ex.beyond, t.kind ≠ .eof := by
  rcases headWithin_cases pre tokens start s with hnone | ⟨head, input, stack, result, hdrop, hrun, hsettle⟩
  · rw [hnone] at h
    cases h
  · obtain ⟨hbal, -⟩ := run_balanced (by simp) (by simp) hpre head input { s with state := s.state.enter } hrun
    rw [hsettle] at h
    have hbeyond := (settle_balanced head hbal).2.2 ex s' h
    refine ⟨head, input, hdrop, ?_, ?_⟩
    · rw [hbeyond]
      exact hbal.taken_le
    · rw [hbeyond]
      exact hbal.not_eof

/-- Expanding an argument restores the expander, whatever number of levels is left. -/
theorem restores_argument (levels : Nat) (tokens : List Token) : Restores [.nothingToDrop] (argument levels tokens) := by
  induction levels generalizing tokens with
  | zero =>
    refine (Restores.hereditary (by simp)).allWith (fun window => restores_headWithin (fun _ => ?_) window 0) tokens
    exact .throw (by simp)
  | succ levels ih =>
    refine (Restores.hereditary (by simp)).allWith (fun window => restores_headWithin (fun argument => ?_) window 0) tokens
    exact (ih argument).mono (by simp)

/-- Expanding an argument may be counted among the work that can nest too deeply. -/
theorem restores_argument_or_deep (levels : Nat) (tokens : List Token) :
    Restores [.tooDeep, .nothingToDrop] (argument levels tokens) :=
  (restores_argument levels tokens).mono (by simp)

/-- Expanding the invocation at a place leaves the expander as it found it, at whatever fault it stops. -/
theorem restores_head (tokens : List Token) (start : Nat) : Restores [.nothingToDrop] (head tokens start) := by
  have hwithin (levels : Nat) : Restores [.nothingToDrop] (headWithin (argument levels) tokens start) :=
    restores_headWithin (restores_argument_or_deep levels) tokens start
  exact ⟨fun s => (hwithin (levelsLeft s.state)).state_eq s, fun {s} _ _ h => (hwithin (levelsLeft s.state)).fault_mem h⟩

/-- Expanding all invocations leaves the expander as it found it, at whatever fault it stops. -/
theorem restores_all (tokens : List Token) : Restores [.nothingToDrop] (all tokens) :=
  (Restores.hereditary (by simp)).allWith (fun window => restores_head window 0) tokens

end Expand

/-- Expanding the invocation at a place, and expanding all invocations, leave the table with its disabled names, the ceiling and the
level as they were: with a result, without one, when nesting is too deep anywhere inside, and at a fault. Enabling a name that is
not disabled, consuming beyond the end and nesting too deeply are never what comes out; a token to drop where none is can be. -/
theorem expansion_restores_expander (tokens : List Token) (start : Nat) :
    Restores [.nothingToDrop] (Expand.head tokens start) ∧ Restores [.nothingToDrop] (Expand.all tokens) :=
  ⟨restores_head tokens start, restores_all tokens⟩

end Prepass
