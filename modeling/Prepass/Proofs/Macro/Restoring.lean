import Prepass.Macro.Expansion
import Prepass.Proofs.Macro.Taking
import Prepass.Proofs.Outcome

/-!
# Expansion leaves the expander as it was

While replacements are read, the names of their frames are disabled beside the names that were disabled before; nothing else of the
expander changes (`Balanced`). Every turn of reading keeps this, however it ends, and so does the unwinding that follows. An expansion
therefore leaves the table, the level and the ceiling as it found them, whether it gives a result, leaves the invocation
alone, nests too deeply or stops at a fault; the only fault that comes out of it is that of dropping a token where none is.
-/

namespace Prepass

/-! ## Work that restores the expander -/

/-- Work that leaves the expander as it found it, whatever it comes to, and stops only at some faults. -/
structure Restores (faults : List ExpandError) {α : Type} (x : Expand α) : Prop where
  state_eq (s : Logged Expander) : (stateAfter (x s)).state = s.state
  fault_mem {s s' : Logged Expander} {e : ExpandError} : x s = .error e s' → e ∈ faults

namespace Restores

variable {faults : List ExpandError} {α β : Type} {x : Expand α} {f : α → Expand β} {s s' : Logged Expander}

/-- After a value the expander is as before. -/
theorem state_of_ok (h : Restores faults x) {a : α} (hx : x s = .ok a s') : s'.state = s.state := by
  have := h.state_eq s
  rwa [hx] at this

/-- After a fault the expander is as before. -/
theorem state_of_error (h : Restores faults x) {e : ExpandError} (hx : x s = .error e s') : s'.state = s.state := by
  have := h.state_eq s
  rwa [hx] at this

/-- A value is given without touching the expander. -/
theorem pure (a : α) : Restores faults (Pure.pure a : Expand α) :=
  ⟨fun _ => rfl, nofun⟩

/-- A fault that is allowed touches nothing. -/
theorem throw {e : ExpandError} (h : e ∈ faults) : Restores faults (throw e : Expand α) := by
  refine ⟨fun _ => rfl, ?_⟩
  intro s s' e' he
  cases he
  exact h

/-- Work in a row restores when each part of it does. -/
theorem bind (hx : Restores faults x) (hf : ∀ a, Restores faults (f a)) : Restores faults (x >>= f) := by
  constructor
  · intro s
    cases hs : x s with
    | ok a s' => rw [bind_of_ok hs, (hf a).state_eq, hx.state_of_ok hs]
    | error e s' => rw [bind_of_error hs, stateAfter_error, hx.state_of_error hs]
  · intro s s' e h
    rcases exists_of_bind_error h with hs | ⟨a, s₁, -, h⟩
    · exact hx.fault_mem hs
    · exact (hf a).fault_mem h

/-- More faults may be allowed. -/
theorem mono {more : List ExpandError} (h : Restores faults x) (hsub : faults ⊆ more) : Restores more x :=
  ⟨h.state_eq, fun hx => hsub (h.fault_mem hx)⟩

end Restores

/-! ## Work put together -/

/-- A property of work on an expander that lasts when work is put together, and that dropping a token where none is has, too. -/
structure Hereditary (P : (α : Type) → Expand α → Prop) : Prop where
  pure {α : Type} (a : α) : P α (Pure.pure a)
  drop : P (List Token) (throw .nothingToDrop)
  bind {α β : Type} {x : Expand α} {f : α → Expand β} : P α x → (∀ a, P β (f a)) → P β (x >>= f)

/-- That work restores the expander lasts when work is put together. -/
theorem Restores.hereditary {faults : List ExpandError} (hdrop : .nothingToDrop ∈ faults) :
    Hereditary (fun _ x => Restores faults x) where
  pure := Restores.pure
  drop := .throw hdrop
  bind := Restores.bind

namespace Hereditary

variable {P : (α : Type) → Expand α → Prop} {pre : List Token → Expand (List Token)}

/-- Dropping the latest token has the property. -/
theorem dropLatest (hP : Hereditary P) (out : List Token) : P _ (Substitution.dropLatest out) := by
  cases out with
  | nil => exact hP.drop
  | cons t earlier => exact hP.pure earlier

/-- A missing argument has the property. -/
theorem omitted (hP : Hereditary P) (parameter : Token) (before out : List Token) :
    P _ (Substitution.omitted parameter before out) := by
  unfold Substitution.omitted
  split
  · exact hP.bind (hP.dropLatest out) fun _ => hP.pure _
  · split
    · refine hP.bind (hP.dropLatest out) fun out => ?_
      split
      · exact hP.dropLatest out
      · exact hP.pure out
    · exact hP.pure out

/-- An argument that stands for a parameter has the property. -/
theorem given (hP : Hereditary P) (hpre : ∀ tokens, P _ (pre tokens)) (argument : Token) (before after out : List Token) :
    P _ (Substitution.given pre argument before after out) := by
  unfold Substitution.given
  split
  · exact hP.bind (hP.dropLatest out) fun _ => hP.pure _
  · split
    · exact hP.pure _
    · exact hP.bind (hpre _) fun _ => hP.pure _

/-- What a token of the body is replaced by has the property. -/
theorem substituteAt (hP : Hereditary P) (hpre : ∀ tokens, P _ (pre tokens)) (params : List String) (arguments : List Token)
    (t : Token) (before after out : List Token) : P _ (Substitution.substituteAt pre params arguments t before after out) := by
  unfold Substitution.substituteAt
  split
  · exact hP.pure _
  · split
    · exact hP.omitted t before out
    · exact hP.given hpre _ before after out

/-- The rest of a body has the property. -/
theorem substituteFrom (hP : Hereditary P) (hpre : ∀ tokens, P _ (pre tokens)) (params : List String)
    (arguments before out rest : List Token) : P _ (Substitution.substituteFrom pre params arguments before out rest) := by
  induction rest generalizing before out with
  | nil => exact hP.pure _
  | cons t rest ih => exact hP.bind (hP.substituteAt hpre params arguments t before rest out) fun out => ih (t :: before) out

/-- Substituting arguments has the property when expanding them does. -/
theorem substitute (hP : Hereditary P) (hpre : ∀ tokens, P _ (pre tokens)) (params : List String) (arguments body : List Token) :
    P _ (Substitution.substitute pre params arguments body) :=
  hP.substituteFrom hpre params arguments [] [] body

/-- Expanding all tokens has the property when expanding the invocation at the head does. -/
theorem allWith (hP : Hereditary P) {head : List Token → Expand (Option Expansion)} (hhead : ∀ window, P _ (head window))
    (tokens : List Token) : P _ (Expand.allWith head tokens) := by
  induction hn : tokens.length using Nat.strongRecOn generalizing tokens with
  | ind n ih =>
    cases tokens with
    | nil =>
      rw [Expand.allWith]
      exact hP.pure _
    | cons t rest =>
      have hlater (k : Nat) : P _ (Expand.allWith head (rest.drop k)) := by
        refine ih _ ?_ _ rfl
        simp only [← hn, List.length_drop, List.length_cons]
        omega
      have hrest : P _ (Expand.allWith head rest) := hlater 0
      rw [Expand.allWith]
      split
      · refine hP.bind (hhead _) fun found => ?_
        cases found with
        | none => exact hP.bind hrest fun _ => hP.pure _
        | some ex => exact hP.bind (hlater ex.beyond) fun _ => hP.pure _
      · exact hP.bind hrest fun _ => hP.pure _

end Hereditary

/-! ## Names held by frames -/

/-- The names that a table has macros for, in either layer. -/
def Table.names (t : Table) : List String :=
  (t.predefined ++ t.user).map (·.1)

/-- As many names are counted as the table has macros. -/
theorem Table.length_names (t : Table) : t.names.length = t.size := by
  simp [names, size]

/-- The macro of a name is an entry of a layer. -/
theorem Table.mem_of_get? {t : Table} {name : String} {m : Macro} (h : t.get? name = some m) : (name, m) ∈ t.predefined ++ t.user := by
  have mem_of_lookup {l : Layer} (hl : l.lookup name = some m) : (name, m) ∈ l := by
    obtain ⟨_, _, rfl, _⟩ := List.lookup_eq_some_iff.mp hl
    simp
  unfold get? at h
  split at h
  · nomatch h
  · split at h
    · rename_i hl
      cases h
      exact List.mem_append_right _ (mem_of_lookup hl)
    · split at h
      · nomatch h
      · exact List.mem_append_left _ (mem_of_lookup h)

/-- A name with a macro is not disabled and is the name of a layer. -/
theorem Table.name_of_get? {t : Table} {name : String} {m : Macro} (h : t.get? name = some m) :
    name ∉ t.disabled ∧ name ∈ t.names := by
  refine ⟨?_, List.mem_map_of_mem (mem_of_get? h)⟩
  intro hdisabled
  simp [get?, isDisabled, hdisabled] at h

namespace Expander

/-- The expander with more names disabled, latest first. -/
def holding (e : Expander) (names : List String) : Expander :=
  e.withTable { e.table with disabled := names ++ e.table.disabled }

/-- Leaving takes back what entering did. -/
@[simp]
theorem leave_enter (e : Expander) : e.enter.leave = e := by
  simp [enter, leave]

end Expander

namespace Expand

/-- Disabling a name holds one more. -/
theorem disable_holding {e : Expander} {names : List String} {s : Logged Expander} (name : String)
    (h : s.state = e.holding names) : disable name s = .ok () { s with state := e.holding (name :: names) } := by
  simp [disable, h, Expander.holding, Expander.withTable, Table.disable]

/-- Enabling the name held last releases it. -/
theorem enable_holding {e : Expander} {name : String} {names : List String} {s : Logged Expander}
    (h : s.state = e.holding (name :: names)) : enable name s = .ok () { s with state := e.holding names } := by
  simp [enable, h, Expander.holding, Expander.withTable, Table.enable?]

/-- Enabling the names held last releases them. -/
theorem enableAll_holding {e : Expander} {names more : List String} {s : Logged Expander}
    (h : s.state = e.holding (names ++ more)) : enableAll names s = .ok () { s with state := e.holding more } := by
  induction names generalizing s with
  | nil =>
    rw [List.nil_append] at h
    rw [← h]
    rfl
  | cons name names ih =>
    unfold enableAll
    rw [bind_of_ok (enable_holding h)]
    exact ih rfl

end Expand

/-! ## Reading to the end -/

namespace Expand

variable {pre : List Token → Expand (List Token)} {bound : Nat} {stack stack' : Stack} {out out' : List Token}
  {s s' : Logged Expander}

/-- Rescanning comes to what the turn comes to that stops it. -/
theorem rescan_of_stop (hle : ¬bound < stack.frames.length) {result : Outcome (List Token)}
    (hturn : turn pre stack out s = .stop stack' result) : rescan pre bound stack out s = (stack', result) := by
  rw [rescan, dif_neg hle]
  split
  · rename_i hother
    cases hturn.symm.trans hother
    rfl
  · rename_i hother
    cases hturn.symm.trans hother

/-- Rescanning goes on from where a turn leads to. -/
theorem rescan_of_next (hle : ¬bound < stack.frames.length) (hturn : turn pre stack out s = .next stack' out' s') :
    rescan pre bound stack out s = rescan pre bound stack' out' s' := by
  rw [rescan, dif_neg hle]
  split
  · rename_i hother
    cases hturn.symm.trans hother
  · rename_i hother
    cases hturn.symm.trans hother
    rfl

end Expand

end Prepass
