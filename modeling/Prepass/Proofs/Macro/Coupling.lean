import Prepass.Proofs.Macro.Ending
import Prepass.Proofs.Macro.Placeless
import Prepass.Proofs.Macro.Telling

/-!
# Two runs of an expansion

Two runs are compared, from expanders that may differ and on tokens that say the same. A relation of their states is a coupling when both
look up the same macros, when it lasts through all that expansion does with its state, and when the first run has as much room below the
ceiling as the second (`Coupling`). Both runs then come to tokens that say the same, or to the same fault, in states that are coupled
again; and if they were given the very same tokens, they come to the very same. Only where the second run has less room it may nest too
deeply instead, which it then tells (`Coupling.parallel_head`, `Coupling.parallel_all`).

One turn of reading is compared first, then reading to the end. The levels left below the ceiling of the second run carry the induction,
because arguments are expanded one level further in by both.
-/

namespace Prepass

open Expand

/-! ## Nesting too deeply -/

/-- It was told that an invocation nests too deeply. -/
def Logged.ToldDeep (s : Logged Expander) : Prop :=
  ∃ head limit, Notice.tooDeep head limit ∈ s.latest

/-- What was told stays told. -/
theorem Logged.ToldDeep.of_suffix {s s' : Logged Expander} (h : s.ToldDeep) (hlatest : s.latest <:+ s'.latest) : s'.ToldDeep := by
  obtain ⟨head, limit, hmem⟩ := h
  exact ⟨head, limit, hlatest.subset hmem⟩

/-- Nesting was too deep for work: it told so, or that is what it stopped at. -/
def TooDeep {α : Type} : Outcome α → Prop
  | .ok _ s => s.ToldDeep
  | .error e s => e = .tooDeep ∨ s.ToldDeep

/-- Nesting was too deep for work that has told so. -/
theorem TooDeep.of_told {α : Type} {r : Outcome α} (h : (stateAfter r).ToldDeep) : TooDeep r := by
  cases r with
  | ok a s => exact h
  | error e s => exact .inr h

/-- When nesting was too deep before, and work takes nothing back of what was told, then it was too deep for the work. -/
theorem Telling.tooDeep {α : Type} {x : Expand α} (hx : Telling x) {s : Logged Expander} (h : s.ToldDeep) : TooDeep (x s) :=
  .of_told (h.of_suffix (hx s))

/-- Nesting too deeply is told when an invocation is settled. -/
theorem told_settle {t : Token} {stack : Stack} {result : Outcome (Option (List Token))} (h : TooDeep result) :
    (stateAfter (settle t stack result)).ToldDeep := by
  have htold (hbefore : (stateAfter result).ToldDeep) : (stateAfter (settle t stack result)).ToldDeep :=
    hbefore.of_suffix (latest_settle t stack result)
  cases result with
  | ok found s => exact htold h
  | error e s =>
    rcases h with rfl | hbefore
    · have hnoted : (s.note (.tooDeep t.value s.state.maxLevel)).ToldDeep := ⟨_, _, List.mem_cons_self⟩
      have hunwind := hnoted.of_suffix (telling_enableAll (stack.frames.map Frame.name) _)
      unfold settle unwind
      dsimp only
      generalize enableAll (stack.frames.map Frame.name) (s.note (.tooDeep t.value s.state.maxLevel)) = unwound at hunwind
      cases unwound with
      | ok _ s₁ => exact hunwind
      | error e s₁ => exact hunwind
    · exact htold hbefore

/-! ## What both runs work on -/

/-- Two values with the same view, and the very same value when exactness is asked for. -/
structure Agree (exact : Prop) {α β : Type} (view : α → β) (a a' : α) : Prop where
  view_eq : view a = view a'
  eq : exact → a = a'

/-- Tokens that say the same, and the very same tokens when exactness is asked for. -/
abbrev AgreeTokens (exact : Prop) (ts ts' : List Token) : Prop :=
  Agree exact (List.map Token.content) ts ts'

namespace Agree

variable {exact : Prop} {α β γ δ : Type} {view : α → β} {a a' : α}

/-- A value agrees with itself. -/
theorem refl (a : α) : Agree exact view a a :=
  ⟨rfl, fun _ => rfl⟩

/-- What is made of values that agree agrees, when its view follows from theirs. -/
theorem map {view' : γ → δ} (h : Agree exact view a a') (f : α → γ) (hview : view' (f a) = view' (f a')) :
    Agree exact view' (f a) (f a') :=
  ⟨hview, fun hexact => congrArg f (h.eq hexact)⟩

end Agree

namespace AgreeTokens

variable {exact : Prop} {t t' : Token} {ts ts' us us' : List Token}

/-- Tokens that agree say the same. -/
theorem saySame (h : AgreeTokens exact ts ts') : SaySame ts ts' :=
  h.view_eq

/-- Tokens agree when their heads and what follows them do. -/
theorem cons (h : Agree exact Token.content t t') (hs : AgreeTokens exact ts ts') : AgreeTokens exact (t :: ts) (t' :: ts') :=
  ⟨SaySame.cons h.view_eq hs.saySame, fun hexact => by rw [h.eq hexact, hs.eq hexact]⟩

/-- Tokens that agree still do with more tokens that agree after them. -/
theorem append (h : AgreeTokens exact ts ts') (hs : AgreeTokens exact us us') : AgreeTokens exact (ts ++ us) (ts' ++ us') :=
  ⟨h.saySame.append hs.saySame, fun hexact => by rw [h.eq hexact, hs.eq hexact]⟩

/-- Tokens that agree do so in either order. -/
theorem reverse (h : AgreeTokens exact ts ts') : AgreeTokens exact ts.reverse ts'.reverse :=
  h.map List.reverse h.saySame.reverse

/-- Tokens that agree still do after as many of each. -/
theorem drop (h : AgreeTokens exact ts ts') (n : Nat) : AgreeTokens exact (ts.drop n) (ts'.drop n) :=
  h.map (List.drop n) (h.saySame.drop n)

/-- Tokens that agree are none, or begin with two that agree. -/
theorem cases (h : AgreeTokens exact ts ts') : (ts = [] ∧ ts' = []) ∨
    ∃ t us t' us', ts = t :: us ∧ ts' = t' :: us' ∧ Agree exact Token.content t t' ∧ AgreeTokens exact us us' := by
  rcases h.saySame.cases with hnil | ⟨t, us, t', us', rfl, rfl, ht, hus⟩
  · exact .inl hnil
  · refine .inr ⟨t, us, t', us', rfl, rfl, ⟨ht, fun hexact => ?_⟩, ⟨hus, fun hexact => ?_⟩⟩
    · exact (List.cons.inj (h.eq hexact)).1
    · exact (List.cons.inj (h.eq hexact)).2

/-- Tokens that agree are lexed again, at places that agree, as tokens that agree. -/
theorem relex (h : AgreeTokens exact ts ts') (hplace : Agree exact Token.content t t') :
    AgreeTokens exact (Expand.relex ts t) (Expand.relex ts' t') :=
  ⟨content_relex h.saySame t t', fun hexact => by rw [h.eq hexact, hplace.eq hexact]⟩

end AgreeTokens

/-- Stacks that say the same, and the very same stack when exactness is asked for. -/
structure Stack.Agree (exact : Prop) (stack stack' : Stack) : Prop where
  same : stack.Same stack'
  eq : exact → stack = stack'

namespace Stack.Agree

variable {exact : Prop} {stack stack' : Stack}

/-- The stacks over inputs that agree. -/
theorem start {input input' : List Token} (h : AgreeTokens exact input input') :
    Stack.Agree exact { input } { input := input' } :=
  ⟨⟨rfl, h.saySame, rfl⟩, fun hexact => by rw [h.eq hexact]⟩

/-- Stacks agree with one more frame on each, of the same name and with tokens that agree. -/
theorem push (h : stack.Agree exact stack') (name : String) {tokens tokens' : List Token} (htokens : AgreeTokens exact tokens tokens') :
    (stack.push name tokens).Agree exact (stack'.push name tokens') :=
  ⟨h.same.push name htokens.saySame, fun hexact => by rw [h.eq hexact, htokens.eq hexact]⟩

/-- Stacks still agree when as many tokens are taken up from each. -/
theorem consume (h : stack.Agree exact stack') (count : Nat) :
    (stack.consume count).stack.Agree exact (stack'.consume count).stack :=
  ⟨(h.same.consume count).1, fun hexact => by rw [h.eq hexact]⟩

/-- Stacks that agree have no frames, or top frames of one name whose tokens agree above stacks that agree. -/
theorem cases (h : stack.Agree exact stack') :
    (stack.frames = [] ∧ stack'.frames = []) ∨ ∃ name unread below unread' below',
      stack.frames = { name, unread } :: below ∧ stack'.frames = { name, unread := unread' } :: below' ∧
      AgreeTokens exact unread unread' ∧ ({ stack with frames := below } : Stack).Agree exact { stack' with frames := below' } := by
  rcases Stack.cases_frames h.same.frames with hnil | ⟨name, unread, below, unread', below', hframes, hframes', hunread, hbelow⟩
  · exact .inl hnil
  · have hexactly (hexact : exact) : unread = unread' ∧ below = below' := by
      have hsame : stack.frames = stack'.frames := by rw [h.eq hexact]
      rw [hframes, hframes'] at hsame
      obtain ⟨htop, hrest⟩ := List.cons.inj hsame
      exact ⟨(Frame.mk.inj htop).2, hrest⟩
    refine .inr ⟨name, unread, below, unread', below', hframes, hframes', ⟨hunread, fun hexact => (hexactly hexact).1⟩, ?_⟩
    refine ⟨⟨hbelow, h.same.input, h.same.taken⟩, fun hexact => ?_⟩
    rw [(hexactly hexact).2, h.eq hexact]

/-- Top frames of one name whose tokens agree may be put on stacks that agree. -/
theorem cons {input input' : List Token} {taken taken' : Nat} {below below' : List Frame}
    (h : ({ frames := below, input, taken } : Stack).Agree exact { frames := below', input := input', taken := taken' }) (name : String)
    {unread unread' : List Token} (hunread : AgreeTokens exact unread unread') :
    ({ frames := { name, unread } :: below, input, taken } : Stack).Agree exact
      { frames := { name, unread := unread' } :: below', input := input', taken := taken' } :=
  h.push name hunread

end Stack.Agree

/-! ## Coupled states -/

/-- A relation of the states of two runs, for each level of the second, that lasts through all that expansion does with its state. Both
runs look up the same macros; the first has as much room below the ceiling as the second, and the second has less only if `tighter`. -/
structure Coupling (tighter : Prop) (ceiling : Int) (R : Int → Logged Expander → Logged Expander → Prop) : Prop where
  get?_eq {level : Int} {s s' : Logged Expander} (h : R level s s') (name : String) :
    s.state.table.get? name = s'.state.table.get? name
  size_eq {level : Int} {s s' : Logged Expander} (h : R level s s') : s.state.table.size = s'.state.table.size
  level_eq {level : Int} {s s' : Logged Expander} (h : R level s s') : s'.state.level = level
  ceiling_eq {level : Int} {s s' : Logged Expander} (h : R level s s') : s'.state.maxLevel = ceiling
  room {level : Int} {s s' : Logged Expander} (h : R level s s') :
    s'.state.maxLevel - s'.state.level ≤ s.state.maxLevel - s.state.level
  even {level : Int} {s s' : Logged Expander} (h : R level s s') (heven : ¬tighter) :
    s.state.maxLevel = s'.state.maxLevel ∧ s.state.level = s'.state.level
  note {level : Int} {s s' : Logged Expander} (h : R level s s') (n : Notice) : R level (s.note n) (s'.note n)
  disable {level : Int} {s s' : Logged Expander} (h : R level s s') (name : String) :
    R level { s with state := s.state.withTable (s.state.table.disable name) }
      { s' with state := s'.state.withTable (s'.state.table.disable name) }
  enable (level : Int) (name : String) : Respects (R level) (Expand.enable name)
  enter {level : Int} {s s' : Logged Expander} (h : R level s s') :
    R (level + 1) { s with state := s.state.enter } { s' with state := s'.state.enter }
  leave {level : Int} {s s' : Logged Expander} (h : R (level + 1) s s') :
    R level { s with state := s.state.leave } { s' with state := s'.state.leave }

/-- Enabling a name is the same work in states with the same table, as long as they stay related when both are given another table. -/
theorem respects_enable {R : Logged Expander → Logged Expander → Prop} (htable : ∀ {s s'}, R s s' → s.state.table = s'.state.table)
    (hwith : ∀ {s s'} (t : Table), R s s' →
      R { s with state := s.state.withTable t } { s' with state := s'.state.withTable t }) (name : String) :
    Respects R (enable name) := by
  intro s s' h
  unfold enable
  rw [htable h]
  split
  · exact .ok () (hwith _ h)
  · exact .error _ h

/-- What work comes to in two runs: values that agree, or the same fault, unless nesting was too deep for a second run with less room. -/
inductive Beside (exact tighter : Prop) (R : Logged Expander → Logged Expander → Prop) {α β : Type} (view : α → β) :
    Outcome α → Outcome α → Prop
  | ok {a a' : α} {s s' : Logged Expander} (h : Agree exact view a a') (hs : R s s') :
    Beside exact tighter R view (.ok a s) (.ok a' s')
  | error (e : ExpandError) {s s' : Logged Expander} (hs : R s s') : Beside exact tighter R view (.error e s) (.error e s')
  | deep {r r' : Outcome α} (htighter : tighter) (h : TooDeep r') : Beside exact tighter R view r r'

/-- When the second run has no less room, both runs come to values with the same view, or to the same fault. -/
theorem Beside.matches {exact : Prop} {R : Logged Expander → Logged Expander → Prop} {α β : Type} {view : α → β} {r r' : Outcome α}
    (h : Beside exact False R view r r') : Matches R (mapResult view r) (mapResult view r') := by
  cases h with
  | ok hvalue hs =>
    rw [mapResult, mapResult, hvalue.view_eq]
    exact .ok _ hs
  | error e hs => exact .error e hs
  | deep htighter _ => exact htighter.elim

/-- Two pieces of work that come to the same from related states. -/
def Parallel (exact tighter : Prop) (R : Logged Expander → Logged Expander → Prop) {α β : Type} (view : α → β) (x x' : Expand α) :
    Prop :=
  ∀ s s', R s s' → Beside exact tighter R view (x s) (x' s')

namespace Parallel

variable {exact tighter : Prop} {R : Logged Expander → Logged Expander → Prop} {α β γ δ : Type} {view : α → β} {view' : γ → δ}
  {x x' : Expand α} {f f' : α → Expand γ}

/-- Values that agree are the outcome of work that comes to the same. -/
theorem pure {a a' : α} (h : Agree exact view a a') : Parallel exact tighter R view (Pure.pure a) (Pure.pure a') :=
  fun _ _ hs => .ok h hs

/-- A fault is the same in both runs. -/
theorem throw (e : ExpandError) : Parallel exact tighter R view (throw e) (throw e) :=
  fun _ _ hs => .error e hs

/-- Work that a relation lasts through comes to the same from related states. -/
theorem of_respects (h : Respects R x) : Parallel exact tighter R id x x := by
  intro s s' hs
  rcases (h s s' hs).cases with ⟨a, s₁, s₁', hr, hr', hs₁⟩ | ⟨e, s₁, s₁', hr, hr', hs₁⟩
  · rw [hr, hr']
    exact .ok (.refl a) hs₁
  · rw [hr, hr']
    exact .error e hs₁

/-- Work in a row comes to the same, when each part of it does and the later parts take nothing back of what was told. -/
theorem bind (hx : Parallel exact tighter R view x x') (htelling : ∀ a, Telling (f' a))
    (hf : ∀ a a', Agree exact view a a' → Parallel exact tighter R view' (f a) (f' a')) :
    Parallel exact tighter R view' (x >>= f) (x' >>= f') := by
  -- when nesting was too deep for the second run already, it goes on alone, and what it told stays told
  intro s s' hs
  have hfirst := hx s s' hs
  cases hr' : x' s' with
  | ok a' s₁' =>
    rw [bind_of_ok hr']
    rw [hr'] at hfirst
    cases hr : x s with
    | ok a s₁ =>
      rw [bind_of_ok hr]
      rw [hr] at hfirst
      cases hfirst with
      | ok h hs₁ => exact hf a a' h s₁ s₁' hs₁
      | deep htighter h => exact .deep htighter ((htelling a').tooDeep h)
    | error e s₁ =>
      rw [hr] at hfirst
      cases hfirst with
      | deep htighter h => exact .deep htighter ((htelling a').tooDeep h)
  | error e s₁' =>
    rw [bind_of_error hr']
    rw [hr'] at hfirst
    cases hr : x s with
    | ok a s₁ =>
      rw [hr] at hfirst
      cases hfirst with
      | deep htighter h => exact .deep htighter h
    | error e s₁ =>
      rw [bind_of_error hr]
      rw [hr] at hfirst
      cases hfirst with
      | error _ hs₁ => exact .error _ hs₁
      | deep htighter h => exact .deep htighter h

end Parallel

section

variable {exact tighter : Prop} {level ceiling : Int} {R : Int → Logged Expander → Logged Expander → Prop} {s s' : Logged Expander}
  {stack stack' : Stack}

namespace Coupling

/-- Nesting is too deep for both runs or for neither, unless it is too deep for a second run with less room. -/
theorem isTooDeep_cases (hR : Coupling tighter ceiling R) (h : R level s s') (hstack : stack.Same stack') :
    isTooDeep s.state stack = isTooDeep s'.state stack' ∨ tighter ∧ isTooDeep s'.state stack' = true := by
  cases hdeep : isTooDeep s'.state stack' with
  | true =>
    by_cases htighter : tighter
    · exact .inr ⟨htighter, rfl⟩
    · obtain ⟨hceiling, hlevel⟩ := hR.even h htighter
      rw [isTooDeep, hceiling, hlevel, hstack.openFrames_eq]
      exact .inl hdeep
  | false =>
    have hroom := hR.room h
    left
    simp only [isTooDeep, decide_eq_false_iff_not, hstack.openFrames_eq] at hdeep ⊢
    omega

/-- Enabling names that both runs have disabled leaves the states related, or has the same fault. -/
theorem enableAll (hR : Coupling tighter ceiling R) (level : Int) (names : List String) : Respects (R level) (Expand.enableAll names) := by
  induction names with
  | nil => exact .pure ()
  | cons name names ih => exact (hR.enable level name).bind fun _ => ih

/-- A frame is put on top in both runs or in neither, unless nesting is then too deep for a second run with less room. -/
theorem descend_cases (hR : Coupling tighter ceiling R) (name : String) (hstack : stack.Same stack') (h : R level s s') :
    (tighter ∧ ∃ s₁', descend name stack' s' = .error .tooDeep s₁') ∨
      Matches (R level) (descend name stack s) (descend name stack' s') := by
  have hdisabled := hR.disable h name
  unfold descend Expand.disable
  dsimp only
  rcases hR.isTooDeep_cases hdisabled hstack with hsame | ⟨htighter, hdeep⟩
  · rw [hsame]
    split
    · exact .inr (.error _ hdisabled)
    · exact .inr (.ok () hdisabled)
  · rw [hdeep]
    exact .inl ⟨htighter, _, rfl⟩

end Coupling

/-! ## Substitution -/

/-- A way of expanding arguments that comes to the same in both runs. -/
structure Steady (exact tighter : Prop) (R : Logged Expander → Logged Expander → Prop) (pre : List Token → Expand (List Token)) :
    Prop where
  telling (tokens : List Token) : Telling (pre tokens)
  parallel {ts ts' : List Token} (h : AgreeTokens exact ts ts') : Parallel exact tighter R (List.map Token.content) (pre ts) (pre ts')

namespace Substitution

variable {related : Logged Expander → Logged Expander → Prop} {pre : List Token → Expand (List Token)} {out out' : List Token}

/-- Dropping the latest token comes to the same. -/
theorem parallel_dropLatest (h : AgreeTokens exact out out') :
    Parallel exact tighter related (List.map Token.content) (dropLatest out) (dropLatest out') := by
  rcases h.cases with ⟨rfl, rfl⟩ | ⟨_, _, _, _, rfl, rfl, -, hearlier⟩
  · exact .throw _
  · exact .pure hearlier

/-- A missing argument comes to the same. -/
theorem parallel_omitted (h : AgreeTokens exact out out') (parameter : Token) (before : List Token) :
    Parallel exact tighter related (List.map Token.content) (omitted parameter before out) (omitted parameter before out') := by
  unfold omitted
  split
  · exact (parallel_dropLatest h).bind (fun _ => .pure _) fun _ _ h => .pure (AgreeTokens.cons (.refl _) h)
  · split
    · refine (parallel_dropLatest h).bind (fun out => ?_) fun out out' h => ?_
      · split
        · exact Telling.hereditary.dropLatest out
        · exact .pure out
      · split
        · exact parallel_dropLatest h
        · exact .pure h
    · exact .pure h

/-- An argument comes to the same where it stands for a parameter. -/
theorem parallel_given (hpre : Steady exact tighter related pre) (h : AgreeTokens exact out out') {argument argument' : Token}
    (hargument : Agree exact Token.content argument argument') (before after : List Token) :
    Parallel exact tighter related (List.map Token.content) (given pre argument before after out)
      (given pre argument' before after out') := by
  have hplace (text : String) : Agree exact Token.content (inPlace argument text) (inPlace argument' text) :=
    hargument.map (inPlace · text) (by simp only [inPlace, Token.content, Token.kind_of_content hargument.view_eq])
  unfold given
  rw [Token.value_of_content hargument.view_eq]
  split
  · exact (parallel_dropLatest h).bind (fun _ => .pure _) fun _ _ h => .pure (AgreeTokens.cons (hplace _) h)
  · split
    · exact .pure (AgreeTokens.cons (hplace _) h)
    · have hlexed : AgreeTokens exact (Token.ofText argument'.value argument.line argument.uri)
          (Token.ofText argument'.value argument'.line argument'.uri) :=
        hargument.map (fun a => Token.ofText argument'.value a.line a.uri)
          ((Token.content_ofText ..).trans (Token.content_ofText ..).symm)
      refine (hpre.parallel hlexed).bind (fun _ => .pure _) fun expanded expanded' hexpanded => .pure ?_
      rw [Token.spell_congr hexpanded.view_eq]
      exact AgreeTokens.cons (hplace _) h

/-- A token of the body comes to the same, be it a parameter or not. -/
theorem parallel_substituteAt (hpre : Steady exact tighter related pre) (h : AgreeTokens exact out out')
    {arguments arguments' : List Token} (harguments : AgreeTokens exact arguments arguments') (params : List String) (t : Token)
    (before after : List Token) : Parallel exact tighter related (List.map Token.content)
      (substituteAt pre params arguments t before after out) (substituteAt pre params arguments' t before after out') := by
  unfold substituteAt
  split
  · exact .pure (AgreeTokens.cons (.refl t) h)
  · rename_i index _
    have hargument : arguments[index]?.map Token.content = arguments'[index]?.map Token.content := by
      rw [← List.getElem?_map, ← List.getElem?_map, harguments.view_eq]
    cases ha : arguments[index]? with
    | none =>
      rw [ha] at hargument
      rw [Option.map_eq_none_iff.mp hargument.symm]
      exact parallel_omitted h t before
    | some argument =>
      rw [ha] at hargument
      obtain ⟨argument', ha', hcontent⟩ := Option.map_eq_some_iff.mp hargument.symm
      rw [ha']
      refine parallel_given hpre h ⟨hcontent.symm, fun hexact => ?_⟩ before after
      rw [← harguments.eq hexact, ha] at ha'
      exact Option.some.inj ha'

/-- The rest of a body comes to the same, token by token. -/
theorem parallel_substituteFrom (hpre : Steady exact tighter related pre) (h : AgreeTokens exact out out')
    {arguments arguments' : List Token} (harguments : AgreeTokens exact arguments arguments') (params : List String)
    (before rest : List Token) : Parallel exact tighter related (List.map Token.content)
      (substituteFrom pre params arguments before out rest) (substituteFrom pre params arguments' before out' rest) := by
  induction rest generalizing before out out' with
  | nil => exact .pure h.reverse
  | cons t rest ih =>
    refine (parallel_substituteAt hpre h harguments params t before rest).bind (fun out => ?_) fun out out' h => ih h (t :: before)
    exact Telling.hereditary.substituteFrom hpre.telling params arguments' (t :: before) out rest

end Substitution

/-! ## Replacements -/

variable {pre : List Token → Expand (List Token)} {out out' : List Token} {t t' : Token}

/-- What a replacement says, if there is one. -/
def saying (found : Option (List Token)) : Option (List (String × Token.Kind)) :=
  found.map (List.map Token.content)

/-- Two replacements agree when there are none, or two whose tokens agree. -/
theorem cases_of_saying {found found' : Option (List Token)} (h : Agree exact saying found found') :
    (found = none ∧ found' = none) ∨
      ∃ tokens tokens', found = some tokens ∧ found' = some tokens' ∧ AgreeTokens exact tokens tokens' := by
  have hview := h.view_eq
  cases found with
  | none =>
    cases found' with
    | none => exact .inl ⟨rfl, rfl⟩
    | some _ => cases hview
  | some tokens =>
    cases found' with
    | none => cases hview
    | some tokens' =>
      exact .inr ⟨tokens, tokens', rfl, rfl, Option.some.inj hview, fun hexact => Option.some.inj (h.eq hexact)⟩

/-- Replacements agree when their tokens do. -/
theorem agree_some {tokens tokens' : List Token} (h : AgreeTokens exact tokens tokens') :
    Agree exact saying (some tokens) (some tokens') :=
  h.map some (congrArg some h.view_eq)

namespace Coupling

/-- A replacement says the same in both runs. -/
theorem parallel_instantiate (hR : Coupling tighter ceiling R) (hpre : Steady exact tighter (R level) pre)
    {arguments arguments' : List Token} (harguments : AgreeTokens exact arguments arguments') (crossed : List String) (missing : Nat)
    (params : List String) (body : List Token) {place place' : Token} (hplace : Agree exact Token.content place place') :
    Parallel exact tighter (R level) saying (instantiate pre crossed missing params arguments body place)
      (instantiate pre crossed missing params arguments' body place') := by
  have hfold : AgreeTokens exact (Arguments.fold params.length arguments) (Arguments.fold params.length arguments') :=
    harguments.map (Arguments.fold params.length) (Arguments.content_fold _ harguments.saySame)
  have hrest : Parallel exact tighter (R level) saying
      (do
        let body ← Substitution.substitute pre params (Arguments.fold params.length arguments) body
        return some (relex (Paste.paste body) place))
      (do
        let body ← Substitution.substitute pre params (Arguments.fold params.length arguments') body
        return some (relex (Paste.paste body) place')) := by
    refine (Substitution.parallel_substituteFrom hpre (.refl []) hfold params [] body).bind (fun _ => .pure _)
      fun body body' hbody => .pure (agree_some ?_)
    have hpasted : AgreeTokens exact (Paste.paste body) (Paste.paste body') := hbody.map Paste.paste (Paste.content_paste hbody.view_eq)
    exact hpasted.relex hplace
  have htelling : Telling (do
      let body ← Substitution.substitute pre params (Arguments.fold params.length arguments') body
      return some (relex (Paste.paste body) place')) :=
    (Telling.hereditary.substitute hpre.telling _ _ _).bind fun _ => .pure _
  unfold instantiate
  refine (Parallel.of_respects (hR.enableAll level crossed)).bind (fun _ => ?_) fun _ _ _ => ?_
  · split
    · exact (Telling.throw _).bind fun (_ : PUnit) => htelling
    · exact htelling
  · split
    · have hthrow : Parallel exact tighter (R level) id (throw .pastEnd : Expand PUnit) (throw .pastEnd) := .throw _
      exact hthrow.bind (fun _ => htelling) fun _ _ _ => hrest
    · exact hrest

/-- Replacements in both runs take the same off the stack and agree. -/
theorem replacement_beside (hR : Coupling tighter ceiling R) (hpre : Steady exact tighter (R level) pre)
    (ht : Agree exact Token.content t t') (hstack : stack.Agree exact stack') (h : R level s s') :
    (replacement pre t stack s).1.Agree exact (replacement pre t' stack' s').1 ∧
      Beside exact tighter (R level) saying (replacement pre t stack s).2 (replacement pre t' stack' s').2 := by
  unfold replacement
  rw [hR.get?_eq h, Token.value_of_content ht.view_eq]
  cases s'.state.table.get? t'.value with
  | none => exact ⟨hstack, .ok (.refl none) h⟩
  | some m =>
    dsimp only
    cases m.params? with
    | none => exact ⟨hstack, .ok (agree_some (AgreeTokens.relex (.refl _) ht)) h⟩
    | some params =>
      have hread := Arguments.read_same hstack.same.lookahead
      have hreadEq (hexact : exact) :
          Arguments.read (·.kind = .eof) stack.lookahead = Arguments.read (·.kind = .eof) stack'.lookahead := by
        rw [hstack.eq hexact]
      dsimp only
      generalize Arguments.read (·.kind = .eof) stack.lookahead = found at hread hreadEq
      generalize Arguments.read (·.kind = .eof) stack'.lookahead = found' at hread hreadEq
      cases hread with
      | absent => exact ⟨hstack, .ok (.refl none) h⟩
      | unclosed => exact ⟨hstack, .ok (.refl none) (hR.note h _)⟩
      | @list count arguments arguments' hsame =>
        have harguments : AgreeTokens exact arguments arguments' := ⟨hsame, fun hexact => (Arguments.Found.list.inj (hreadEq hexact)).2⟩
        dsimp only
        rw [hsame.length_eq]
        obtain ⟨-, hcrossed, hmissing⟩ := hstack.same.consume count
        split
        · rw [hcrossed, hmissing]
          exact ⟨hstack.consume count, hR.parallel_instantiate hpre harguments _ _ _ _ ht s s' h⟩
        · exact ⟨hstack, .ok (.refl none) (hR.note h _)⟩

end Coupling

/-! ## Reading -/

/-- Nesting was too deep for a turn. -/
def Expand.Turn.TooDeep : Turn → Prop
  | .next _ _ s => s.ToldDeep
  | .stop _ result => Prepass.TooDeep result

/-- Two turns that come to the same in both runs, unless nesting was too deep for a second run with less room. -/
inductive Expand.Turn.Beside (exact tighter : Prop) (R : Logged Expander → Logged Expander → Prop) : Turn → Turn → Prop
  | next {stack stack' : Stack} {out out' : List Token} {s s' : Logged Expander} (hstack : stack.Agree exact stack')
    (hout : AgreeTokens exact out out') (hs : R s s') : Beside exact tighter R (.next stack out s) (.next stack' out' s')
  | stop {stack stack' : Stack} {result result' : Outcome (List Token)} (hstack : stack.Agree exact stack')
    (h : Prepass.Beside exact tighter R (List.map Token.content) result result') :
    Beside exact tighter R (.stop stack result) (.stop stack' result')
  | deep {turn turn' : Turn} (htighter : tighter) (h : turn'.TooDeep) : Beside exact tighter R turn turn'

/-- Nesting was too deep for a turn that still tells so. -/
theorem Expand.Turn.TooDeep.of_latest {turn : Turn} {s : Logged Expander} (h : s.ToldDeep) (hlatest : s.latest <:+ turn.latest) :
    turn.TooDeep := by
  cases turn with
  | next stack out s₁ => exact h.of_suffix hlatest
  | stop stack result => exact .of_told (h.of_suffix hlatest)

/-- What reading comes to in both runs, unless nesting was too deep for a second run with less room. -/
def BesideReading (exact tighter : Prop) (R : Logged Expander → Logged Expander → Prop) {α β : Type} (view : α → β)
    (r r' : Stack × Outcome α) : Prop :=
  tighter ∧ TooDeep r'.2 ∨ r.1.Agree exact r'.1 ∧ Beside exact tighter R view r.2 r'.2

/-- What nested too deeply at one turn stays so when reading goes on to the end. -/
theorem rescan_tooDeep (hpre : ∀ tokens, Telling (pre tokens)) {bound : Nat} (hle : ¬bound < stack.frames.length)
    (h : (turn pre stack out s).TooDeep) : TooDeep (rescan pre bound stack out s).2 := by
  cases hturn : turn pre stack out s with
  | next stack₁ out₁ s₁ =>
    rw [hturn] at h
    rw [rescan_of_next hle hturn]
    exact .of_told (h.of_suffix (latest_rescan hpre bound stack₁ out₁ s₁))
  | stop stack₁ result =>
    rw [hturn] at h
    rwa [rescan_of_stop hle hturn]

namespace Coupling

/-- What becomes of a token is the same in both runs. -/
theorem turnAt_beside (hR : Coupling tighter ceiling R) (hpre : Steady exact tighter (R level) pre)
    (ht : Agree exact Token.content t t') (hstack : stack.Agree exact stack') (hout : AgreeTokens exact out out') (h : R level s s') :
    (turnAt pre t stack out s).Beside exact tighter (R level) (turnAt pre t' stack' out' s') := by
  obtain ⟨hleft, hreplaced⟩ := hR.replacement_beside hpre ht hstack h
  have hlatest := latest_turnAt_of_replacement pre t' stack' out' s'
  unfold turnAt at hlatest ⊢
  rw [Token.value_of_content ht.view_eq]
  cases hr : replacement pre t stack s with
  | mk stack₁ result =>
    cases hr' : replacement pre t' stack' s' with
    | mk stack₁' result' =>
      rw [hr, hr'] at hleft hreplaced
      rw [hr'] at hlatest
      cases hreplaced with
      | error e hs₁ => exact .stop hleft (.error e hs₁)
      | ok hsay hs₁ =>
        rcases cases_of_saying hsay with ⟨rfl, rfl⟩ | ⟨tokens, tokens', rfl, rfl, htokens⟩
        · exact .next hleft (.cons ht hout) hs₁
        · have hpush := hleft.push t'.value htokens
          dsimp only
          rcases hR.descend_cases t'.value hpush.same hs₁ with ⟨htighter, s₂', hd'⟩ | hmatch
          · rw [hd']
            exact .deep htighter (.inl rfl)
          · rcases hmatch.cases with ⟨_, s₂, s₂', hd, hd', hs₂⟩ | ⟨e, s₂, s₂', hd, hd', hs₂⟩
            · rw [hd, hd']
              exact .next hpush hout hs₂
            · rw [hd, hd']
              exact .stop hpush (.error e hs₂)
      | deep htighter hdeep =>
        cases result' with
        | ok found' s₁' => exact .deep htighter (.of_latest hdeep hlatest)
        | error e s₁' => exact .deep htighter hdeep

/-- A turn of reading comes to the same in both runs. -/
theorem turn_beside (hR : Coupling tighter ceiling R) (hpre : Steady exact tighter (R level) pre) (hstack : stack.Agree exact stack')
    (hout : AgreeTokens exact out out') (h : R level s s') :
    (turn pre stack out s).Beside exact tighter (R level) (turn pre stack' out' s') := by
  obtain ⟨frames, input, taken⟩ := stack
  obtain ⟨frames', input', taken'⟩ := stack'
  rcases hstack.cases with ⟨hnil, hnil'⟩ | ⟨name, unread, below, unread', below', hcons, hcons', hunread, hbelow⟩
  · simp only at hnil hnil'
    subst hnil hnil'
    exact .stop hstack (.ok hout.reverse h)
  · simp only at hcons hcons' hbelow
    subst hcons hcons'
    unfold turn
    rcases hunread.cases with ⟨rfl, rfl⟩ | ⟨t, unread, t', unread', rfl, rfl, ht, hunread⟩
    · dsimp only
      rcases (hR.enable level name s s' h).cases with ⟨_, s₁, s₁', he, he', hs₁⟩ | ⟨e, s₁, s₁', he, he', hs₁⟩
      · rw [he, he']
        exact .next hbelow hout hs₁
      · rw [he, he']
        exact .stop hbelow (.error e hs₁)
    · have hread := hbelow.cons name hunread
      dsimp only
      rw [Token.kind_of_content ht.view_eq]
      split
      · exact hR.turnAt_beside hpre ht hread hout h
      · exact .next hread (.cons ht hout) h

/-- Reading to the end comes to the same in both runs: as a turn does, all turns do. -/
theorem rescan_beside (hR : Coupling tighter ceiling R) (hpre : Steady exact tighter (R level) pre) (bound : Nat)
    (hstack : stack.Agree exact stack') (hout : AgreeTokens exact out out') (h : R level s s') :
    BesideReading exact tighter (R level) (List.map Token.content) (rescan pre bound stack out s)
      (rescan pre bound stack' out' s') := by
  fun_induction rescan pre bound stack out s generalizing stack' out' s' with
  | case1 stack out s htoo =>
    rw [hstack.same.length_eq] at htoo
    rw [rescan, dif_pos htoo]
    exact .inr ⟨hstack, .error _ h⟩
  | case2 stack out s hle stack₁ result hturn =>
    rw [hstack.same.length_eq] at hle
    have hbeside := hR.turn_beside hpre hstack hout h
    rw [hturn] at hbeside
    generalize hturn' : turn pre stack' out' s' = turn' at hbeside
    cases hbeside with
    | stop hstack₁ hresult =>
      rw [rescan_of_stop hle hturn']
      exact .inr ⟨hstack₁, hresult⟩
    | deep htighter hdeep => exact .inl ⟨htighter, rescan_tooDeep hpre.telling hle (hturn' ▸ hdeep)⟩
  | case3 stack out s hle stack₁ out₁ s₁ hturn ih =>
    rw [hstack.same.length_eq] at hle
    have hbeside := hR.turn_beside hpre hstack hout h
    rw [hturn] at hbeside
    generalize hturn' : turn pre stack' out' s' = turn' at hbeside
    cases hbeside with
    | next hstack₁ hout₁ hs₁ =>
      rw [rescan_of_next hle hturn']
      exact ih hstack₁ hout₁ hs₁
    | deep htighter hdeep => exact .inl ⟨htighter, rescan_tooDeep hpre.telling hle (hturn' ▸ hdeep)⟩

/-! ## Invocations -/

/-- Expanding an invocation comes to the same in both runs. -/
theorem run_beside (hR : Coupling tighter ceiling R) (htelling : ∀ tokens, Telling (pre tokens))
    (hpre : level < ceiling → Steady exact tighter (R level) pre) {input input' : List Token} (ht : Agree exact Token.content t t')
    (hinput : AgreeTokens exact input input') (h : R level s s') :
    BesideReading exact tighter (R level) saying (run pre t input s) (run pre t' input' s') := by
  have hstart := Stack.Agree.start hinput
  rcases hR.isTooDeep_cases h hstart.same with hsame | ⟨htighter, hdeep⟩
  · cases hdeep : isTooDeep s'.state { input := input' } with
    | true =>
      simp only [run, hsame, hdeep, if_true]
      exact .inr ⟨hstart, .error _ h⟩
    | false =>
      have hbelow : level < ceiling := by
        simpa [isTooDeep, Stack.openFrames, hR.level_eq h, hR.ceiling_eq h] using hdeep
      have hlatest := latest_run_of_replacement htelling t' input' hdeep
      obtain ⟨hleft, hreplaced⟩ := hR.replacement_beside (hpre hbelow) ht hstart h
      simp only [run, hsame, hdeep, Token.value_of_content ht.view_eq, Bool.false_eq_true, if_false] at hlatest ⊢
      cases hr : replacement pre t { input } s with
      | mk stack₁ result =>
        cases hr' : replacement pre t' { input := input' } s' with
        | mk stack₁' result' =>
          rw [hr, hr'] at hleft hreplaced
          rw [hr'] at hlatest
          cases hreplaced with
          | error e hs₁ => exact .inr ⟨hleft, .error e hs₁⟩
          | ok hsay hs₁ =>
            rcases cases_of_saying hsay with ⟨rfl, rfl⟩ | ⟨tokens, tokens', rfl, rfl, htokens⟩
            · exact .inr ⟨hleft, .ok (.refl none) hs₁⟩
            · have hpush := hleft.push t'.value htokens
              dsimp only
              rcases hR.descend_cases t'.value hpush.same hs₁ with ⟨htighter, s₂', hd'⟩ | hmatch
              · rw [hd']
                exact .inl ⟨htighter, .inl rfl⟩
              · rcases hmatch.cases with ⟨_, s₂, s₂', hd, hd', hs₂⟩ | ⟨e, s₂, s₂', hd, hd', hs₂⟩
                · rw [hd, hd']
                  dsimp only
                  rw [hR.size_eq hs₂]
                  have hread := hR.rescan_beside (hpre hbelow) s₂'.state.table.size hpush (.refl []) hs₂
                  generalize rescan pre s₂'.state.table.size (stack₁.push t'.value tokens) [] s₂ = reading at hread
                  generalize rescan pre s₂'.state.table.size (stack₁'.push t'.value tokens') [] s₂' = reading' at hread
                  obtain ⟨stack₃, result⟩ := reading
                  obtain ⟨stack₃', result'⟩ := reading'
                  rcases hread with ⟨htighter, hdeep⟩ | ⟨hstack₃, hresult⟩
                  · exact .inl ⟨htighter, by cases result' <;> exact hdeep⟩
                  · cases hresult with
                    | ok hsay hs₃ => exact .inr ⟨hstack₃, .ok (agree_some hsay) hs₃⟩
                    | error e hs₃ => exact .inr ⟨hstack₃, .error e hs₃⟩
                    | deep htighter hdeep => exact .inl ⟨htighter, by cases result' <;> exact hdeep⟩
                · rw [hd, hd']
                  exact .inr ⟨hpush, .error e hs₂⟩
          | deep htighter hdeep =>
            cases result' with
            | ok found' s₁' => exact .inl ⟨htighter, .of_told (hdeep.of_suffix hlatest)⟩
            | error e s₁' => exact .inl ⟨htighter, hdeep⟩
  · simp only [run, hdeep, if_true]
    exact .inl ⟨htighter, .inl rfl⟩

end Coupling

/-- What an invocation takes up beyond its name, and what it comes to says. -/
def Expansion.content (ex : Expansion) : Nat × List (String × Token.Kind) :=
  (ex.beyond, ex.tokens.map Token.content)

namespace Coupling

/-- An invocation is settled the same way in both runs. -/
theorem settle_beside (hR : Coupling tighter ceiling R) (ht : Agree exact Token.content t t')
    {reading reading' : Stack × Outcome (Option (List Token))} (h : BesideReading exact tighter (R (level + 1)) saying reading reading') :
    Beside exact tighter (R level) (Option.map Expansion.content) (settle t reading.1 reading.2) (settle t' reading'.1 reading'.2) := by
  obtain ⟨stack, result⟩ := reading
  obtain ⟨stack', result'⟩ := reading'
  rcases h with ⟨htighter, hdeep⟩ | ⟨hstack, hresult⟩
  · exact .deep htighter (.of_told (told_settle hdeep))
  · have hunwind (s s' : Logged Expander) (hs : R (level + 1) s s') :=
      (hR.enableAll (level + 1) (stack'.frames.map Frame.name) s s' hs).cases
    have hnames : stack.frames.map Frame.name = stack'.frames.map Frame.name := hstack.same.names_eq
    cases hresult with
    | @ok found found' s s' hsay hs =>
      rcases cases_of_saying hsay with ⟨rfl, rfl⟩ | ⟨tokens, tokens', rfl, rfl, htokens⟩
      · rcases hunwind s s' hs with ⟨_, s₁, s₁', hu, hu', hs₁⟩ | ⟨e, s₁, s₁', hu, hu', hs₁⟩
        · simp only [settle, unwind, hnames, hu, hu']
          exact .ok (.refl none) (hR.leave hs₁)
        · simp only [settle, unwind, hnames, hu, hu']
          exact .error e (hR.leave hs₁)
      · have htaken : stack.taken = stack'.taken := hstack.same.taken
        rcases hunwind s s' hs with ⟨_, s₁, s₁', hu, hu', hs₁⟩ | ⟨e, s₁, s₁', hu, hu', hs₁⟩
        · simp only [settle, unwind, hnames, hu, hu']
          refine .ok ⟨?_, fun hexact => ?_⟩ (hR.leave hs₁)
          · simp only [Option.map_some, Expansion.content, Token.content_relocate, htokens.view_eq, htaken]
          · rw [htaken, htokens.eq hexact, ht.eq hexact]
        · simp only [settle, unwind, hnames, hu, hu']
          exact .error e (hR.leave hs₁)
    | @error e s s' hs =>
      by_cases he : e = .tooDeep
      · subst he
        by_cases htighter : tighter
        · exact .deep htighter (.of_told (told_settle (.inl rfl)))
        · have hnoted := hR.note hs (.tooDeep t'.value s'.state.maxLevel)
          have hceiling : s.state.maxLevel = s'.state.maxLevel := (hR.even hs htighter).1
          rcases hunwind _ _ hnoted with ⟨_, s₁, s₁', hu, hu', hs₁⟩ | ⟨e, s₁, s₁', hu, hu', hs₁⟩
          · simp only [settle, unwind, hnames, Token.value_of_content ht.view_eq, hceiling, hu, hu']
            exact .ok (.refl none) (hR.leave hs₁)
          · simp only [settle, unwind, hnames, Token.value_of_content ht.view_eq, hceiling, hu, hu']
            exact .error e (hR.leave hs₁)
      · rcases hunwind s s' hs with ⟨_, s₁, s₁', hu, hu', hs₁⟩ | ⟨e', s₁, s₁', hu, hu', hs₁⟩
        · simp only [settle, unwind, hnames, hu, hu']
          exact .error e (hR.leave hs₁)
        · simp only [settle, unwind, hnames, hu, hu']
          exact .error e' (hR.leave hs₁)
    | deep htighter hdeep => exact .deep htighter (.of_told (told_settle hdeep))

/-- The expansion of the name at a place is the same in both runs, with as many tokens taken up and a result that says the same. -/
theorem parallel_headWithin (hR : Coupling tighter ceiling R) (htelling : ∀ tokens, Telling (pre tokens))
    (hpre : level + 1 < ceiling → Steady exact tighter (R (level + 1)) pre) {tokens tokens' : List Token}
    (htokens : AgreeTokens exact tokens tokens') (start : Nat) :
    Parallel exact tighter (R level) (Option.map Expansion.content) (headWithin pre tokens start) (headWithin pre tokens' start) := by
  intro s s' h
  unfold headWithin
  rcases (htokens.drop start).cases with ⟨hnil, hnil'⟩ | ⟨head, input, head', input', hcons, hcons', hhead, hinput⟩
  · rw [hnil, hnil']
    exact .ok (.refl none) h
  · rw [hcons, hcons']
    dsimp only
    rw [Table.contains, hR.get?_eq h, ← Table.contains, Token.value_of_content hhead.view_eq]
    split
    · exact hR.settle_beside hhead (hR.run_beside htelling hpre hhead hinput (hR.enter h))
    · exact .ok (.refl none) h

end Coupling

/-- Expanding all tokens comes to the same in both runs, as long as expanding the invocation at the head does. -/
theorem parallel_allWith {related : Logged Expander → Logged Expander → Prop} {head : List Token → Expand (Option Expansion)}
    (htelling : ∀ window, Telling (head window))
    (hhead : ∀ {window window'}, AgreeTokens exact window window' →
      Parallel exact tighter related (Option.map Expansion.content) (head window) (head window'))
    {tokens tokens' : List Token} (htokens : AgreeTokens exact tokens tokens') :
    Parallel exact tighter related (List.map Token.content) (allWith head tokens) (allWith head tokens') := by
  induction hn : tokens.length using Nat.strongRecOn generalizing tokens tokens' with
  | ind n ih =>
    rcases htokens.cases with ⟨rfl, rfl⟩ | ⟨t, rest, t', rest', rfl, rfl, ht, hrest⟩
    · rw [allWith]
      exact .pure (.refl [])
    · have hlater (k : Nat) :
          Parallel exact tighter related (List.map Token.content) (allWith head (rest.drop k)) (allWith head (rest'.drop k)) := by
        refine ih _ ?_ (hrest.drop k) rfl
        simp only [← hn, List.length_drop, List.length_cons]
        omega
      have hkept : Parallel exact tighter related (List.map Token.content) (do return t :: (← allWith head rest))
          (do return t' :: (← allWith head rest')) :=
        (hlater 0).bind (fun _ => .pure _) fun _ _ h => .pure (AgreeTokens.cons ht h)
      have htold (k : Nat) : Telling (allWith head (rest'.drop k)) := Telling.hereditary.allWith htelling _
      rw [allWith, allWith, Token.kind_of_content ht.view_eq]
      split
      · refine (hhead htokens).bind (fun found => ?_) fun found found' hsay => ?_
        · cases found with
          | none => exact (htold 0).bind fun _ => .pure _
          | some ex => exact (htold ex.beyond).bind fun _ => .pure _
        · have hview := hsay.view_eq
          cases found with
          | none =>
            cases found' with
            | none => exact hkept
            | some _ => cases hview
          | some ex =>
            cases found' with
            | none => cases hview
            | some ex' =>
              obtain ⟨hbeyond, hcontent⟩ := Prod.mk.inj (Option.some.inj hview)
              have htokens : AgreeTokens exact ex.tokens ex'.tokens :=
                ⟨hcontent, fun hexact => by rw [Option.some.inj (hsay.eq hexact)]⟩
              dsimp only
              rw [hbeyond]
              exact (hlater ex'.beyond).bind (fun _ => .pure _) fun _ _ h => .pure (htokens.append h)
      · exact hkept

namespace Coupling

/-- Expanding all tokens comes to the same in both runs. The induction is on the levels left to the second. -/
theorem steady_all (hR : Coupling tighter ceiling R) (level : Int) : Steady exact tighter (R level) all := by
  induction hn : (ceiling - level).toNat using Nat.strongRecOn generalizing level with
  | ind n ih =>
    refine ⟨telling_all, fun htokens => parallel_allWith (fun window => telling_head window 0) ?_ htokens⟩
    intro window window' hwindow s s' hs
    rw [head_eq_headWithin_all, head_eq_headWithin_all]
    refine hR.parallel_headWithin telling_all (fun hbelow => ?_) hwindow 0 s s' hs
    exact ih _ (by omega) (level + 1) rfl

/-- Expanding all macros in some tokens leaves tokens that say the same. -/
theorem parallel_all (hR : Coupling tighter ceiling R) {tokens tokens' : List Token} (htokens : AgreeTokens exact tokens tokens') :
    Parallel exact tighter (R level) (List.map Token.content) (all tokens) (all tokens') :=
  (hR.steady_all level).parallel htokens

/-- Expanding the invocation at a place comes to the same in both runs. -/
theorem parallel_head (hR : Coupling tighter ceiling R) {tokens tokens' : List Token} (htokens : AgreeTokens exact tokens tokens')
    (start : Nat) :
    Parallel exact tighter (R level) (Option.map Expansion.content) (head tokens start) (head tokens' start) := by
  intro s s' h
  rw [head_eq_headWithin_all, head_eq_headWithin_all]
  exact hR.parallel_headWithin telling_all (fun _ => hR.steady_all (level + 1)) htokens start s s' h

end Coupling

end

end Prepass
