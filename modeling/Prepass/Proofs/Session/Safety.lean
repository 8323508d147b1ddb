import Mathlib
import Prepass.Proofs.Conditional.Refinement
import Prepass.Proofs.Directive.Lexed
import Prepass.Proofs.Expression.Blame
import Prepass.Proofs.Macro.Silence
import Prepass.Proofs.Session.Run

/-!
# Where preprocessing stops

Preprocessing a text comes to its end, unless it comes to a conditional whose expression has a constant that does not fit into a signed
word (`preprocessText_returns_or_overflows`). Every other fault is out of reach or is caught: macros from definitions have plain
parameters, so expansions stop at no fault, and an expression that is refused counts as true. Only definitions change the
expander (`Quiet`), and they leave a plain table (`Safe`). Work can be nested as deeply as a text asks for: a limit on nested calls, which
an interpreter may have, is not modelled.
-/

namespace Prepass

open SessionM

/-! ## Plain tables -/

namespace Table

/-- What is in a layer after a definition is that definition, or was in it before. -/
theorem mem_of_mem_insert {l : Layer} {m : Macro} {entry : String × Macro} (h : entry ∈ l.insert m) : entry = (m.name, m) ∨ entry ∈ l := by
  rcases List.mem_cons.mp h with h | h
  · exact .inl h
  · exact .inr (List.mem_filter.mp h).1

/-- A definition of a plain macro leaves the table plain. -/
theorem Plain.define {t : Table} (h : t.Plain) {m : Macro} (hm : m.Plain) : (t.define m).Plain := by
  intro entry hentry
  rcases List.mem_append.mp hentry with hentry | hentry
  · exact h entry (List.mem_append_left _ hentry)
  · rcases mem_of_mem_insert hentry with rfl | hentry
    · exact hm
    · exact h entry (List.mem_append_right _ hentry)

/-- So does a definition for good. -/
theorem Plain.predefine {t : Table} (h : t.Plain) {m : Macro} (hm : m.Plain) : (t.predefine m).Plain := by
  intro entry hentry
  rcases List.mem_append.mp hentry with hentry | hentry
  · rcases mem_of_mem_insert hentry with rfl | hentry
    · exact hm
    · exact h entry (List.mem_append_left _ hentry)
  · exact h entry (List.mem_append_right _ hentry)

/-- Removing a definition leaves the table plain. -/
theorem Plain.undefine {t : Table} (h : t.Plain) (name : String) : (t.undefine name).Plain := by
  have hremove : ∀ entry ∈ t.predefined ++ t.user.remove name, entry.2.Plain := by
    intro entry hentry
    rcases List.mem_append.mp hentry with hentry | hentry
    · exact h entry (List.mem_append_left _ hentry)
    · exact h entry (List.mem_append_right _ (List.mem_filter.mp hentry).1)
  unfold Table.undefine
  dsimp only
  split
  · exact hremove
  · exact hremove

end Table

/-- The macros of settings are plain. -/
theorem Session.plain_of_ofSettings {settings : Settings} {s : Session} (h : ofSettings settings = .ok s) : s.table.Plain := by
  have hall {t t' : Table} {definitions : List String} (ht : t.Plain) (hdefined : predefineAll t definitions = .ok t') : t'.Plain := by
    induction definitions generalizing t with
    | nil =>
      cases hdefined
      exact ht
    | cons definition rest ih =>
      rw [predefineAll] at hdefined
      split at hdefined
      · rename_i m hm
        exact ih (ht.predefine (Macro.sound_of_ofDefinition hm).1) hdefined
      · cases hdefined
  unfold ofSettings at h
  dsimp only at h
  split at h
  · rename_i table htable
    cases h
    refine hall ?_ htable
    refine List.foldlRecOn (motive := Table.Plain) settings.standard _ (by intro entry hentry; cases hentry) ?_
    intro t ht entry _
    exact ht.predefine (Macro.plain_of_object rfl)
  · cases h

/-! ## Conditions -/

/-- Expanding the expression of a conditional leaves a constant that does not fit into a signed word. -/
def Overflows (expression : List Token) (e : Expander) : Prop :=
  ∃ substituted expanded s', substituteDefined e.table expression = .ok substituted ∧
    Expand.all substituted { state := e } = .ok expanded s' ∧ ∃ t ∈ expanded, t.constant = .error .outOfRange

/-- The answer to a test for definedness is lexed. -/
theorem lexed_answer {t : Token} (hkind : t.kind = .numberLiteral) (hvalue : t.value = "1" ∨ t.value = "0") : t.Lexed := by
  have hone : Lexer.lexeme ['1'] = (.numberLiteral, 1) := by decide
  have hzero : Lexer.lexeme ['0'] = (.numberLiteral, 1) := by decide
  rcases hvalue with hvalue | hvalue
  · exact Token.lexed_of_lexeme (by rw [hvalue]; rfl) (by decide) (by rw [hkind]; exact hone)
  · exact Token.lexed_of_lexeme (by rw [hvalue]; rfl) (by decide) (by rw [hkind]; exact hzero)

/-- The answers that stand in for questions whether a name is defined are numbers, so the tokens are lexed as before. -/
theorem lexed_substituteDefined {table : Table} {tokens substituted : List Token} (htokens : ∀ t ∈ tokens, t.Lexed)
    (h : substituteDefined table tokens = .ok substituted) : ∀ t ∈ substituted, t.Lexed := by
  have hcons {r : Except ParseError (List Token)} {t : Token} {out : List Token} (hr : r.map (t :: ·) = .ok out) :
      ∃ more, r = .ok more ∧ out = t :: more := by
    cases r with
    | error e => cases hr
    | ok more => exact ⟨more, rfl, (Except.ok.inj hr).symm⟩
  fun_induction substituteDefined table tokens generalizing substituted with
  | case1 =>
    cases h
    exact htokens
  | case2 => cases h
  | case3 t rest _ name length _ value answer =>
    rename_i ih
    have hvalue : answer.value = "1" ∨ answer.value = "0" := by
      show value = "1" ∨ value = "0"
      by_cases hdefined : table.contains name.value = true
      · exact .inl (dif_pos hdefined)
      · exact .inr (dif_neg hdefined)
    obtain ⟨more, hmore, rfl⟩ := hcons h
    refine List.forall_mem_cons.mpr ⟨lexed_answer rfl hvalue, ?_⟩
    exact ih (fun u hu => htokens u (List.mem_cons_of_mem t (List.mem_of_mem_drop hu))) hmore
  | case4 t rest _ ih =>
    obtain ⟨more, hmore, rfl⟩ := hcons h
    refine List.forall_mem_cons.mpr ⟨htokens t (by simp), ?_⟩
    exact ih (fun u hu => htokens u (List.mem_cons_of_mem t hu)) hmore

/-! ## Work that leaves the expander alone -/

/-- Work that from a plain table leaves the expander alone when it gives a value, and stops only at a number that does not fit, with
something to blame on the expander. -/
structure Quiet (blame : Expander → Prop) {α : Type} (w : SessionM α) : Prop where
  of_ok {s s' : Logged Session} {a : α} : s.state.table.Plain → w s = .ok a s' → s'.state.expander = s.state.expander
  of_error {s s' : Logged Session} {e : Fault} : s.state.table.Plain → w s = .error e s' → e = .eval .outOfRange ∧ blame s.state.expander

namespace Quiet

variable {blame : Expander → Prop} {α β : Type} {w : SessionM α} {f : α → SessionM β}

/-- Work that always gives a value and changes something other than the expander. -/
theorem of_eq_ok {value : Logged Session → α} {next : Logged Session → Logged Session} (h : ∀ s, w s = .ok (value s) (next s))
    (hsame : ∀ s, (next s).state.expander = s.state.expander) : Quiet blame w := by
  constructor
  · intro s s' a _ hs
    rw [h] at hs
    cases hs
    exact hsame s
  · intro s s' e _ hs
    rw [h] at hs
    cases hs

/-- A value that is given is quiet. -/
theorem pure (a : α) : Quiet blame (Pure.pure a : SessionM α) :=
  .of_eq_ok (fun _ => rfl) fun _ => rfl

/-- Work in a row is quiet when each part of it is. -/
theorem bind (hw : Quiet blame w) (hf : ∀ a, Quiet blame (f a)) : Quiet blame (w >>= f) := by
  have hnext {s s₁ : Logged Session} {a : α} (hplain : s.state.table.Plain) (hs : w s = .ok a s₁) : s₁.state.table.Plain := by
    rw [Session.table, hw.of_ok hplain hs]
    exact hplain
  constructor
  · intro s s' b hplain h
    obtain ⟨a, s₁, hs, h⟩ := exists_of_bind_ok h
    rw [(hf a).of_ok (hnext hplain hs) h, hw.of_ok hplain hs]
  · intro s s' e hplain h
    rcases exists_of_bind_error h with hs | ⟨a, s₁, hs, h⟩
    · exact hw.of_error hplain hs
    · rw [← hw.of_ok hplain hs]
      exact (hf a).of_error (hnext hplain hs) h

/-- Work that begins with a look at the session. -/
theorem current_bind {f : Session → SessionM β} (h : ∀ s, Quiet blame (f s)) : Quiet blame (current >>= f) :=
  ⟨fun {s} => (h s.state).of_ok, fun {s} => (h s.state).of_error⟩

/-- A change that leaves the expander alone is quiet. -/
theorem update {g : Session → Session} (h : ∀ s, (g s).expander = s.expander) : Quiet blame (update g) :=
  .of_eq_ok (fun _ => rfl) fun s => h s.state

/-- The state of conditionals is no part of the expander. -/
theorem updateConditional (g : Conditional → Conditional) : Quiet blame (updateConditional g) :=
  .update fun _ => rfl

/-- Telling something leaves the expander alone. -/
theorem note (n : Notice) : Quiet blame (note n) :=
  .of_eq_ok (fun _ => rfl) fun _ => rfl

theorem noteAll (ns : List Notice) : Quiet blame (noteAll ns) :=
  .of_eq_ok (fun _ => rfl) fun _ => rfl

theorem noteUnless (active : Bool) (n : Notice) : Quiet blame (if !active then SessionM.note n else Pure.pure ()) := by
  cases active with
  | true => exact .pure _
  | false => exact .note n

/-- Parsing leaves the expander alone and raises no fault. -/
theorem parse (p : Parse α) (tokens : List Token) : Quiet blame (parse p tokens) := by
  constructor
  · intro s s' found _ h
    unfold SessionM.parse at h
    split at h <;> (cases h; rfl)
  · intro s s' e _ h
    unfold SessionM.parse at h
    split at h <;> cases h

/-- An expansion that stops at no fault. -/
theorem expand {work : Expand α} {P : α → Prop} (hwork : ∀ e : Expander, e.table.Plain → Yields e [] P work) :
    Quiet blame (expand work) := by
  constructor
  · intro s s' a hplain hs
    unfold SessionM.expand at hs
    split at hs
    · rename_i hok
      cases hs
      exact ((hwork s.state.expander hplain).of_ok rfl hok).1
    · cases hs
  · intro s s' e hplain hs
    unfold SessionM.expand at hs
    split at hs
    · cases hs
    · rename_i herror
      exact absurd ((hwork s.state.expander hplain).of_error rfl herror).2 List.not_mem_nil

end Quiet

/-! ## Single steps -/

section

variable {blame : Expander → Prop} {expression : List Token}

/-- Evaluating a lexed expression leaves the expander alone. The expression has no value only because it is refused, or because a constant
does not fit. -/
theorem evaluate_quiet (hlexed : ∀ t ∈ expression, t.Lexed) {s : Logged Session} (hplain : s.state.table.Plain) :
    (stateAfter (evaluate expression s)).state.expander = s.state.expander ∧
    ∀ e s', evaluate expression s = .error e s' →
      (∃ cause, e = .eval (.parse cause)) ∨ (e = .eval .outOfRange ∧ Overflows expression s.state.expander) := by
  unfold evaluate
  rw [current_bind]
  cases hsub : substituteDefined s.state.table expression with
  | error cause =>
    refine ⟨rfl, ?_⟩
    rintro e s' ⟨⟩
    exact .inl ⟨cause, rfl⟩
  | ok substituted =>
    dsimp only
    have hyields := Expand.all_faultless (e := s.state.expander) hplain substituted
    obtain ⟨expanded, s₁, hall, hstate, htokens⟩ := hyields.exists_ok (s := s.withState s.state.expander) rfl
    rw [bind_of_ok (expand_of_ok hall)]
    have hexpanded : ∀ t ∈ expanded, t.Lexed := by
      intro t ht
      rcases htokens t ht with ht | ht
      · exact lexed_substituteDefined hlexed hsub t ht
      · exact ht
    cases heval : Expression.evaluate expanded with
    | ok b =>
      refine ⟨hstate, ?_⟩
      rintro e s' ⟨⟩
    | error cause =>
      refine ⟨hstate, ?_⟩
      rintro e s' ⟨⟩
      rcases Expression.cause_of_evaluate hexpanded heval with ⟨cause', rfl⟩ | ⟨rfl, hconstant⟩
      · exact .inl ⟨cause', rfl⟩
      · -- what was told before has no part in the expansion
        have hsilent := Expand.deaf_all substituted { state := s.state.expander } (s.withState s.state.expander) rfl
        rw [hall] at hsilent
        rcases hsilent.cases with ⟨a, s₂, s₂', ha, ha', -⟩ | ⟨e, s₂, s₂', -, he, -⟩
        · cases ha'
          exact .inr ⟨rfl, substituted, expanded, s₂, hsub, ha, hconstant⟩
        · cases he

/-- A condition that is refused counts as true, so only a constant that does not fit is left to stop at. -/
theorem quiet_condition (hlexed : ∀ t ∈ expression, t.Lexed) (t : Token) (place : Place) :
    Quiet (Overflows expression) (condition expression t place) := by
  constructor
  · intro s s' b hplain h
    obtain ⟨hsame, -⟩ := evaluate_quiet hlexed hplain
    unfold condition at h
    split at h
    · rename_i heval
      rw [heval] at hsame
      cases h
      exact hsame
    · rw [h] at hsame
      exact hsame
  · intro s s' e hplain h
    obtain ⟨-, herror⟩ := evaluate_quiet hlexed hplain
    unfold condition at h
    split at h
    · cases h
    · rename_i hcaught
      rcases herror e s' h with ⟨cause, rfl⟩ | hoverflow
      · exact absurd h (hcaught _ _)
      · exact hoverflow

/-- The value of an expression is all that can go wrong in an if directive. -/
theorem quiet_handleIf (hlexed : ∀ t ∈ expression, t.Lexed) (t : Token) (place : Place) :
    Quiet (Overflows expression) (handleIf expression t place) := by
  refine .current_bind fun s => ?_
  split
  · exact .updateConditional _
  · refine (Quiet.note _).bind fun _ => (quiet_condition hlexed t place).bind fun active => ?_
    exact (Quiet.updateConditional _).bind fun _ => .noteUnless active _

/-- The value of an expression is all that can go wrong in an elif directive. -/
theorem quiet_handleElif (hlexed : ∀ t ∈ expression, t.Lexed) (t : Token) (place : Place) :
    Quiet (Overflows expression) (handleElif expression t place) := by
  refine .current_bind fun s => ?_
  dsimp only
  split
  · exact .pure _
  · split
    · exact (Quiet.note _).bind fun _ => .updateConditional _
    · refine (Quiet.updateConditional _).bind fun _ => (Quiet.note _).bind fun _ => (quiet_condition hlexed t place).bind fun active => ?_
      exact (Quiet.updateConditional _).bind fun _ => .noteUnless active _

/-- Nothing goes wrong in a directive that asks for a name. -/
theorem quiet_handleIfdef (name : Token) (negated : Bool) (t : Token) (place : Place) :
    Quiet blame (handleIfdef name negated t place) := by
  refine .current_bind fun s => ?_
  split
  · exact .updateConditional _
  · exact (Quiet.updateConditional _).bind fun _ => .noteUnless _ _

/-- Nothing goes wrong in an else directive. -/
theorem quiet_handleElse (place : Place) : Quiet blame (handleElse place) := by
  refine .current_bind fun s => ?_
  dsimp only
  split
  · exact .pure _
  · exact (Quiet.note _).bind fun _ => .updateConditional _

/-- Nothing goes wrong in an endif directive, also when no conditional is open. -/
theorem quiet_handleEndif (place : Place) : Quiet blame (handleEndif place) := by
  refine .current_bind fun s => ?_
  dsimp only
  split
  · exact (Quiet.note _).bind fun _ => .updateConditional _
  · exact .updateConditional _

/-- Nothing goes wrong when a directive cannot be parsed. -/
theorem quiet_handleMalformed (t : Token) : Quiet blame (handleMalformed t) := by
  unfold handleMalformed
  split
  · exact .pure _
  · split
    · exact .updateConditional _
    · split
      · exact .updateConditional _
      · exact .pure _

/-- Nothing goes wrong in expanding a name, since macros from a plain table are expanded without faults. -/
theorem quiet_handleName (tokens : List Token) (start : Nat) (place : Place) : Quiet blame (handleName tokens start place) := by
  refine (Quiet.expand fun _ hplain => Expand.head_faultless hplain tokens start).bind fun found => ?_
  cases found with
  | none => exact .pure _
  | some ex => exact (Quiet.note _).bind fun _ => .pure _

/-- Nothing goes wrong in looking for a file. -/
theorem quiet_lookUp (files : FileAccess) (what : Lookup) : Quiet blame (lookUp files what) := by
  constructor
  · intro s s' answer _ h
    unfold lookUp at h
    split at h <;> (cases h; rfl)
  · intro s s' e _ h
    unfold lookUp at h
    split at h <;> cases h

/-- Nothing goes wrong in an include directive, also when its path is computed. -/
theorem quiet_handleInclude (files : FileAccess) (l : DirectiveLine) (body : IncludeBody) (place : Place) :
    Quiet blame (handleInclude files l body place) := by
  have hpath : Quiet blame (includedPath body) := by
    cases body with
    | path p => exact .pure _
    | computed tokens =>
      refine (Quiet.expand fun _ hplain => Expand.all_faultless hplain tokens).bind fun expanded => ?_
      refine (Quiet.parse _ expanded).bind fun found => ?_
      cases found with
      | ok p => exact .pure _
      | error e => exact .pure _
  refine hpath.bind fun found => ?_
  cases found with
  | none => exact .note _
  | some p =>
    refine (quiet_lookUp files _).bind fun answer => ?_
    cases answer with
    | none =>
      refine Quiet.bind (.update ?_) fun _ => .note _
      exact fun _ => rfl
    | some parts => exact .update fun _ => rfl

end

/-! ## Steps -/

/-- Work that from a plain table leaves one when it gives a value, and stops only at a number that does not fit, with something to blame
on the expander. -/
structure Safe (blame : Expander → Prop) {α : Type} (w : SessionM α) : Prop where
  of_ok {s s' : Logged Session} {a : α} : s.state.table.Plain → w s = .ok a s' → s'.state.table.Plain
  of_error {s s' : Logged Session} {e : Fault} : s.state.table.Plain → w s = .error e s' → e = .eval .outOfRange ∧ blame s.state.expander

/-- Quiet work from a plain table leaves the table as it was, and so plain. -/
theorem Quiet.safe {blame : Expander → Prop} {α : Type} {w : SessionM α} (h : Quiet blame w) : Safe blame w := by
  refine ⟨?_, h.of_error⟩
  intro s s' a hplain hs
  rw [Session.table, h.of_ok hplain hs]
  exact hplain

namespace Safe

variable {blame : Expander → Prop} {α β : Type} {w : SessionM α} {f : α → SessionM β}

/-- Work that begins with a look at the session. -/
theorem current_bind {f : Session → SessionM β} (h : ∀ s, Safe blame (f s)) : Safe blame (current >>= f) :=
  ⟨fun {s} => (h s.state).of_ok, fun {s} => (h s.state).of_error⟩

/-- A value that does not come from the work. -/
theorem then_pure (hw : Safe blame w) (b : β) : Safe blame (do let _ ← w; return b) := by
  constructor
  · intro s s' b' hplain h
    obtain ⟨a, s₁, hs, h⟩ := exists_of_bind_ok h
    cases h
    exact hw.of_ok hplain hs
  · intro s s' e hplain h
    rcases exists_of_bind_error h with hs | ⟨a, s₁, -, h⟩
    · exact hw.of_error hplain hs
    · cases h

/-- Quiet work before safe work. -/
theorem after_quiet (hw : Quiet blame w) (hf : ∀ a, Safe blame (f a)) : Safe blame (w >>= f) := by
  constructor
  · intro s s' b hplain h
    obtain ⟨a, s₁, hs, h⟩ := exists_of_bind_ok h
    exact (hf a).of_ok (hw.safe.of_ok hplain hs) h
  · intro s s' e hplain h
    rcases exists_of_bind_error h with hs | ⟨a, s₁, hs, h⟩
    · exact hw.of_error hplain hs
    · rw [← hw.of_ok hplain hs]
      exact (hf a).of_error (hw.safe.of_ok hplain hs) h

end Safe

/-- A change of the table that leaves it plain. -/
theorem safe_mapTable {blame : Expander → Prop} {g : Table → Table} (h : ∀ t : Table, t.Plain → (g t).Plain) :
    Safe blame (update (Session.mapTable g)) := by
  constructor
  · intro s s' a hplain hs
    cases hs
    exact h _ hplain
  · intro s s' e _ hs
    cases hs

/-- The directive that a token is asks for the value of an expression. -/
def Token.Asks (t : Token) (expression : List Token) : Prop :=
  t.kind = .directive ∧ ∃ l, t.line? = some l ∧ (l.directive = .ifLine expression ∨ l.directive = .elifLine expression)

/-- The token asks for the value of an expression in which a constant does not fit. -/
def Token.Overruns (t : Token) (e : Expander) : Prop :=
  ∃ expression, t.Asks expression ∧ Overflows expression e

/-- What the parser reads off a directive token is made of lexed tokens. -/
theorem Token.sound_of_line {t : Token} {l : DirectiveLine} (h : t.line? = some l) : l.directive.Sound := by
  unfold line? DirectiveLine.ofText at h
  split at h
  · rename_i hs
    cases h
    exact Parse.reads_directiveLine.value_of (fun u => lexed_of_mem) hs
  · cases h

/-- A definition leaves a plain table because its parameters are plain; the other directives add no macro. -/
theorem safe_carryOut {blame : Expander → Prop} (files : FileAccess) {l : DirectiveLine} (hsound : l.directive.Sound) (place : Place) :
    Safe blame (carryOut files l place) := by
  unfold carryOut
  split
  · rename_i hdirective
    rw [hdirective] at hsound
    exact .after_quiet (.note _) fun _ => safe_mapTable fun t ht => ht.define hsound.1
  · exact (quiet_handleInclude files l _ place).safe
  · exact .after_quiet (.note _) fun _ => safe_mapTable fun t ht => ht.undefine _
  · exact (Quiet.pure _).safe

/-- A directive line stops only when it asks for the value of an expression in which a constant does not fit. -/
theorem safe_handleLine (files : FileAccess) {l : DirectiveLine} {t : Token} (hkind : t.kind = .directive) (hline : t.line? = some l)
    (place : Place) : Safe t.Overruns (handleLine files l t place) := by
  have hsound := Token.sound_of_line hline
  -- the expression that a line asks for is to blame when its value does not fit
  have hasks {expression : List Token} (hdirective : l.directive = .ifLine expression ∨ l.directive = .elifLine expression)
      {w : SessionM Unit} (hw : Quiet (Overflows expression) w) : Safe t.Overruns w := by
    refine ⟨hw.safe.of_ok, fun hplain herror => ?_⟩
    obtain ⟨rfl, hoverflow⟩ := hw.of_error hplain herror
    exact ⟨rfl, expression, ⟨hkind, l, hline, hdirective⟩, hoverflow⟩
  unfold handleLine
  split
  · exact (quiet_handleIfdef _ _ t place).safe
  · exact (quiet_handleElse place).safe
  · exact (quiet_handleEndif place).safe
  · rename_i expression hdirective
    rw [hdirective] at hsound
    exact hasks (.inr hdirective) (quiet_handleElif hsound t place)
  · rename_i expression hdirective
    rw [hdirective] at hsound
    exact hasks (.inl hdirective) (quiet_handleIf hsound t place)
  · refine .current_bind fun s => ?_
    split
    · exact (Quiet.pure _).safe
    · exact safe_carryOut files hsound place

/-- A directive token stops only when it asks for the value of an expression in which a constant does not fit. -/
theorem safe_handleDirective (files : FileAccess) {t : Token} (hkind : t.kind = .directive) (place : Place) :
    Safe t.Overruns (handleDirective files t place) := by
  rw [handleDirective_eq files hkind]
  refine .after_quiet (.noteAll _) fun _ => ?_
  cases hline : t.line? with
  | some l => exact safe_handleLine files hkind hline place
  | none => exact (quiet_handleMalformed t).safe

/-- A step stops only at a directive with a constant that does not fit. -/
theorem safe_process (files : FileAccess) (t : Token) (rest : List Token) : Safe t.Overruns (process files (t :: rest)) := by
  by_cases hkind : t.kind = .directive
  · have hstep (place : Place) : Safe t.Overruns (do handleDirective files t place; return Action.replace 0 [t] []) :=
      (safe_handleDirective files hkind place).then_pure _
    refine ⟨fun {s} {_} {_} hplain h => ?_, fun {s} {_} {_} hplain h => ?_⟩
    · rw [process_directive hkind] at h
      exact (hstep (s.place t)).of_ok hplain h
    · rw [process_directive hkind] at h
      exact (hstep (s.place t)).of_error hplain h
  · rw [process_other hkind]
    refine Quiet.safe (.current_bind fun s => ?_)
    split
    · exact .pure _
    · split
      · exact .pure _
      · split
        · exact .pure _
        · exact quiet_handleName _ _ _

/-! ## Runs -/

/-- A run keeps the table plain. -/
theorem plain_of_run {files : FileAccess} {tokens after : List Token} {s s' : Logged Session} (h : Run files after s' tokens s)
    (hplain : s.state.table.Plain) : s'.state.table.Plain := by
  induction h with
  | done => exact hplain
  | @keep t rest _ _ hs _ ih => exact ih ((safe_process files t rest).of_ok hplain hs)
  | @replace t rest _ _ _ _ _ hs _ ih => exact ih ((safe_process files t rest).of_ok hplain hs)

/-- Preprocessing tokens gives tokens, or it comes to a directive with a constant that does not fit. -/
theorem preprocess_returns_or_overruns (files : FileAccess) (tokens : List Token) {s : Logged Session} (hplain : s.state.table.Plain) :
    (∃ out s', preprocess files tokens s = .ok out s') ∨
    ∃ t rest s₁ s', Run files (t :: rest) s₁ tokens s ∧ t.Overruns s₁.state.expander ∧
      preprocess files tokens s = .error (.eval .outOfRange) s' := by
  cases hs : preprocess files tokens s with
  | ok out s' => exact .inl ⟨out, s', rfl⟩
  | error e s' =>
    obtain ⟨t, rest, s₁, hrun, hstop⟩ := run_of_error hs
    obtain ⟨rfl, hover⟩ := (safe_process files t rest).of_error (plain_of_run hrun hplain) hstop
    exact .inr ⟨t, rest, s₁, s', hrun, hover, rfl⟩

/-- Preprocessing a text is preprocessing its tokens, from a session with the same expander. -/
theorem preprocessText_eq (files : FileAccess) (text uri : String) (s : Logged Session) :
    ∃ s₀, s₀.state.expander = s.state.expander ∧
      preprocessText files text uri s = preprocess files (Token.ofSource text uri).state s₀ := by
  unfold preprocessText
  rw [current_bind]
  split
  · exact ⟨(((s.note (.beginFile uri)).withState (s.state.begin uri)).noteAll (Token.ofSource text uri).notices), rfl, rfl⟩
  · exact ⟨s.noteAll (Token.ofSource text uri).notices, rfl, rfl⟩

/-- From a session for settings, preprocessing a text gives tokens, whatever the text, or it stops at a conditional of the text that is
reached and whose expression has a constant that does not fit into a signed word. Nesting is unbounded here: that an interpreter gives up
on an expression or a list nested too deeply for its own stack of calls is outside of the model. -/
theorem preprocessText_returns_or_overflows {settings : Settings} {session : Session} (h : Session.ofSettings settings = .ok session)
    (files : FileAccess) (text uri : String) (latest : List Notice) :
    (∃ out s', preprocessText files text uri { state := session, latest } = .ok out s') ∨
    ∃ s₀ t rest s₁ s', s₀.state.expander = session.expander ∧ Run files (t :: rest) s₁ (Token.ofSource text uri).state s₀ ∧
      (∃ expression, t.Asks expression ∧ Overflows expression s₁.state.expander) ∧
      preprocessText files text uri { state := session, latest } = .error (.eval .outOfRange) s' := by
  obtain ⟨s₀, hsame, heq⟩ := preprocessText_eq files text uri { state := session, latest }
  have hplain : s₀.state.table.Plain := by
    rw [Session.table, hsame]
    exact Session.plain_of_ofSettings h
  rw [heq]
  rcases preprocess_returns_or_overruns files (Token.ofSource text uri).state hplain with hok | ⟨t, rest, s₁, s', hrun, hover, herror⟩
  · exact .inl hok
  · exact .inr ⟨s₀, t, rest, s₁, s', hsame, hrun, hover, herror⟩

/-- A conditional on a character constant that does not fit into a signed word. -/
def overflowing : String :=
  "#if '\\xFFFFFFFFFFFFFFFFF'\n#endif\n"

/-- Preprocessing this text stops, and a conditional that is reached is to blame. -/
theorem preprocessText_returns_or_overflows_overflowing :
    Session.ofSettings { standard := [] } = .ok Session.bare.state ∧
    ∃ s₀ t rest s₁ s', s₀.state.expander = Session.bare.state.expander ∧ Run {} (t :: rest) s₁ (Token.ofSource overflowing "").state s₀ ∧
      (∃ expression, t.Asks expression ∧ Overflows expression s₁.state.expander) ∧
      preprocessText {} overflowing "" Session.bare = .error (.eval .outOfRange) s' := by
  have hfresh : Session.ofSettings { standard := [] } = .ok Session.bare.state := rfl
  have hstops : ((preprocessText {} overflowing "").run' Session.bare).isNone = true := by cbv
  refine ⟨hfresh, (preprocessText_returns_or_overflows hfresh {} overflowing "" []).resolve_left ?_⟩
  rintro ⟨out, s', h⟩
  have hsome : (preprocessText {} overflowing "").run' Session.bare = some out := run'_eq_some.mpr ⟨s', h⟩
  rw [hsome] at hstops
  cases hstops

/-- The fault of such a constant comes out: preprocessing gives no tokens. -/
theorem preprocessText_overflowing_stops :
    Session.ofSettings { standard := [] } = .ok Session.bare.state ∧
    match preprocessText {} overflowing "" Session.bare with
    | .ok .. => False
    | .error e _ => e = .eval .outOfRange := by
  refine ⟨rfl, ?_⟩
  cbv

end Prepass
