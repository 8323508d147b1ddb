import Prepass.Proofs.Conditional.Counting

/-!
# Coherent states of conditionals

Every sequence of directives, balanced or not, keeps the state of conditionals coherent (`Conditional.Coherent`), also when states are
saved and restored in between and files end; and in each context as many conditionals are open as its directives say
(`contexts_performAll`).
-/

namespace Prepass

namespace Conditional

/-- A state of conditionals in which what is counted, what is skipped and which branches have been active go together. The count of inner
conditionals is a natural number, so it is never below zero. -/
structure Coherent (c : Conditional) : Prop where
  nested : 0 < c.nestedDepth → c.skipping = true
  outer : ∀ taken ∈ c.taken.tail, taken = true
  active : c.skipping = false → ∀ taken ∈ c.taken, taken = true

variable {c c' : Conditional} {r : Token.Role}

/-- Where no conditional is open, the state is coherent. -/
theorem coherent_of_none (file : Option String) : ({ includeFile := file } : Conditional).Coherent where
  nested := by simp
  outer := by simp
  active := by simp

/-- Beyond the innermost conditional, marking a branch changes nothing. -/
theorem tail_taken_mark (c : Conditional) (active : Bool) : (c.mark active).taken.tail = c.taken.tail := by
  unfold mark
  split
  · rfl
  · rename_i t outer htaken
    simp [htaken]

/-- Once a branch is marked as active, all open conditionals have had one. -/
theorem Coherent.mark_true (h : c.Coherent) : ∀ taken ∈ (c.mark true).taken, taken = true := by
  have houter := h.outer
  unfold mark
  split
  · rename_i hnone
    simp [hnone]
  · rename_i t outer htaken
    intro taken hmem
    rw [htaken, List.tail_cons] at houter
    rcases List.mem_cons.mp hmem with rfl | hmem
    · simp
    · exact houter taken hmem

/-- An inner conditional is counted while tokens are skipped. -/
theorem Coherent.nest (h : c.Coherent) (hskip : c.skipping = true) : c.nest.Coherent where
  nested := fun _ => hskip
  outer := h.outer
  active := h.active

/-- A conditional that is opened is skipped just when its first branch is not active. -/
theorem Coherent.openBranch (h : c.Coherent) (hskip : c.skipping = false) (active : Bool) : (c.openBranch active).Coherent where
  nested := by
    intro hpos
    have hskip' := h.nested hpos
    rw [hskip] at hskip'
    cases hskip'
  outer := h.active hskip
  active := by
    intro hactive taken hmem
    rcases List.mem_cons.mp hmem with rfl | hmem
    · simpa [Conditional.openBranch] using hactive
    · exact h.active hskip taken hmem

/-- A further branch is skipped just when it is not active. -/
theorem Coherent.enterBranch (h : c.Coherent) (hdepth : c.nestedDepth = 0) (active : Bool) : (c.enterBranch active).Coherent where
  nested := by
    intro hpos
    have hzero : (c.enterBranch active).nestedDepth = 0 := (nestedDepth_mark c active).trans hdepth
    omega
  outer := by
    show ∀ taken ∈ (c.mark active).taken.tail, taken = true
    rw [tail_taken_mark]
    exact h.outer
  active := by
    intro hactive
    obtain rfl : active = true := by simpa [Conditional.enterBranch] using hactive
    exact h.mark_true

/-- A branch after an active one is skipped. -/
theorem Coherent.skipBranch (h : c.Coherent) : c.skipBranch.Coherent where
  nested := fun _ => rfl
  outer := h.outer
  active := by
    intro hactive
    cases hactive

/-- The last branch is skipped just when one before it was active. -/
theorem Coherent.elseBranch (h : c.Coherent) (hdepth : c.nestedDepth = 0) : c.elseBranch.Coherent where
  nested := by
    intro hpos
    have hzero : c.elseBranch.nestedDepth = 0 := (nestedDepth_mark c true).trans hdepth
    omega
  outer := fun taken hmem => h.mark_true taken (List.mem_of_mem_tail hmem)
  active := fun _ => h.mark_true

/-- Closing a conditional uncounts an inner one, or goes back to processing tokens. -/
theorem Coherent.close (h : c.Coherent) : c.close.Coherent := by
  unfold Conditional.close
  split
  · rename_i hpos
    exact ⟨fun _ => h.nested hpos, h.outer, h.active⟩
  · rename_i hzero
    -- the innermost conditional is gone, and all around it have had an active branch
    exact ⟨fun hpos => absurd hpos hzero, fun taken hmem => h.outer taken (List.mem_of_mem_tail hmem), fun _ => h.outer⟩

/-- A move keeps a state coherent. -/
theorem Coherent.move (h : c.Coherent) (hmove : c.Move r c') : c'.Coherent := by
  cases hmove with
  | plain => exact h
  | nest hskip => exact h.nest hskip
  | opening active hskip => exact h.openBranch hskip active
  | inner hr hdepth => exact h
  | further active hdepth htaken => exact h.enterBranch hdepth active
  | past hdepth htaken => exact h.skipBranch
  | last hdepth => exact h.elseBranch hdepth
  | closing => exact h.close

end Conditional

/-! ## Sequences of events -/

open SessionM

/-- What may happen to the states of conditionals of a session: a directive is processed, whatever follows it, the state is saved and a new
one begun for an included file, a saved one is restored, or the file ends. -/
inductive Event where
  | directive (t : Token) (rest : List Token) (hkind : t.kind = .directive)
  | push (file : Option String)
  | pop
  | finish (file : Option String)

namespace Event

/-- Lets an event happen. -/
def perform (files : FileAccess) : Event → SessionM Unit
  | .directive t rest _ => do
    let _ ← process files (t :: rest)
  | .push file => update (·.pushState file)
  | .pop => popState
  | .finish file => SessionM.finish file

/-- Lets events happen one after another. -/
def performAll (files : FileAccess) : List Event → SessionM Unit
  | [] => pure ()
  | e :: rest => do
    e.perform files
    performAll files rest

/-- The numbers of open conditionals after an event, innermost context first: a directive counts in the innermost one. -/
def count : Event → List Nat → List Nat
  | .directive t _ _, n :: outer => t.tally n :: outer
  | .push _, counts => 0 :: counts
  | .pop, _ :: outer => outer
  | .finish _, _ => [0]
  | _, [] => []

/-- The numbers of open conditionals that events leave, innermost context first. -/
def counts (events : List Event) : List Nat :=
  events.foldl (fun counts e => e.count counts) [0]

end Event

/-- The states of the conditionals of a session, that of the innermost context first. -/
def Session.contexts (s : Session) : List Conditional :=
  s.conditional :: s.saved

/-- The states of the conditionals of a session are coherent, and so many are open in each of them. -/
structure Session.Reckoned (s : Session) (counts : List Nat) : Prop where
  coherent : ∀ c ∈ s.contexts, c.Coherent
  openCounts : s.contexts.map Conditional.openCount = counts

namespace Session.Reckoned

variable {files : FileAccess} {s s' : Logged Session} {counts : List Nat}

/-- A session outside of all files has one context, in which none is open. -/
theorem of_none {s : Session} (hcond : s.conditional = {}) (hsaved : s.saved = []) : s.Reckoned [0] where
  coherent := by
    intro c hc
    rw [Session.contexts, hcond, hsaved, List.mem_singleton] at hc
    exact hc ▸ Conditional.coherent_of_none none
  openCounts := by
    rw [Session.contexts, hcond, hsaved]
    rfl

/-- A directive counts in the innermost context. -/
theorem directive (h : s.state.Reckoned counts) {t : Token} (hkind : t.kind = .directive) {rest : List Token} {action : Action}
    (hs : process files (t :: rest) s = .ok action s') : s'.state.Reckoned (Event.count (.directive t rest hkind) counts) := by
  rw [process_directive hkind] at hs
  obtain ⟨_, s₁, hdone, hs⟩ := exists_of_bind_ok hs
  cases hs
  obtain ⟨r, hmove, hsaved, htally⟩ := move_of_handleDirective hkind hdone
  have hcoherent := h.coherent
  have hcounts := h.openCounts
  simp only [Session.contexts, List.map_cons] at hcoherent hcounts
  subst hcounts
  constructor
  · intro c hc
    rw [Session.contexts, hsaved] at hc
    rcases List.mem_cons.mp hc with rfl | hc
    · exact (hcoherent _ (List.mem_cons_self ..)).move hmove
    · exact hcoherent c (List.mem_cons_of_mem _ hc)
  · rw [Session.contexts, List.map_cons, hsaved, Conditional.openCount_of_move hmove, Event.count, htally]

/-- An included file is one more context, in which none is open. -/
theorem push {s : Session} (h : s.Reckoned counts) (file : Option String) : (s.pushState file).Reckoned (0 :: counts) where
  coherent := by
    intro c hc
    rcases List.mem_cons.mp hc with rfl | hc
    · exact Conditional.coherent_of_none file
    · exact h.coherent c hc
  openCounts := congrArg (0 :: ·) h.openCounts

/-- After the included file the context before it is the innermost one again. -/
theorem pop {s s' : Session} (h : s.Reckoned counts) (hs : s.popState? = some s') : s'.Reckoned (Event.pop.count counts) := by
  have hcoherent := h.coherent
  have hcounts := h.openCounts
  unfold Session.popState? at hs
  split at hs
  · cases hs
  · rename_i c saved hsaved
    cases hs
    simp only [Session.contexts, List.map_cons, hsaved] at hcoherent hcounts
    subst hcounts
    exact ⟨fun c' hc' => hcoherent c' (List.mem_cons_of_mem _ hc'), rfl⟩

/-- An event keeps the states coherent and changes the numbers as it counts. -/
theorem perform (h : s.state.Reckoned counts) {e : Event} (hs : e.perform files s = .ok () s') : s'.state.Reckoned (e.count counts) := by
  cases e with
  | directive t rest hkind =>
    obtain ⟨action, s₁, hprocess, hs⟩ := exists_of_bind_ok hs
    cases hs
    exact h.directive hkind hprocess
  | push file =>
    cases hs
    exact h.push file
  | pop =>
    simp only [Event.perform, popState] at hs
    split at hs
    · rename_i state hpop
      cases hs
      exact h.pop hpop
    · cases hs
  | finish file =>
    cases hs
    exact of_none rfl rfl

/-- Events count one after another. -/
theorem performAll (h : s.state.Reckoned counts) {events : List Event} (hs : Event.performAll files events s = .ok () s') :
    s'.state.Reckoned (events.foldl (fun counts e => e.count counts) counts) := by
  induction events generalizing s counts with
  | nil =>
    cases hs
    exact h
  | cons e rest ih =>
    obtain ⟨_, s₁, hfirst, hs⟩ := exists_of_bind_ok hs
    exact ih (h.perform hfirst) hs

end Session.Reckoned

/-- From a new session, events that happen without a fault lead to coherent states of conditionals, the current one and all saved ones;
and in each context as many conditionals are open as its directives leave open, counted from zero and never below it. -/
theorem contexts_performAll (files : FileAccess) {settings : Settings} {session : Session} (hnew : Session.ofSettings settings = .ok session)
    (latest : List Notice) (events : List Event) {s' : Logged Session}
    (h : Event.performAll files events { state := session, latest } = .ok () s') :
    (∀ c ∈ s'.state.contexts, c.Coherent) ∧ s'.state.contexts.map Conditional.openCount = Event.counts events := by
  obtain ⟨table, -, rfl⟩ := Session.eq_of_ofSettings hnew
  have hstart : Session.Reckoned { settings, expander := { table } } [0] := .of_none rfl rfl
  have hend := Session.Reckoned.performAll (s := { state := _, latest }) hstart h
  exact ⟨hend.coherent, hend.openCounts⟩

/-- A conditional that cannot be parsed inside one that is not active, and a stray last branch in an included file. -/
def Event.unbalanced : List Event :=
  [.directive { value := "#ifdef DEBUG", kind := .directive } [] rfl,
   .directive { value := "#ifdef", kind := .directive } [] rfl,
   .push (some "other.h"),
   .directive { value := "#else", kind := .directive } [] rfl]

/-- The conditionals that cannot be parsed and the stray branch leave a coherent state and the right count in each context. -/
theorem contexts_performAll_unbalanced : ∃ s',
    Event.performAll {} Event.unbalanced Session.bare = .ok () s' ∧
    (∀ c ∈ s'.state.contexts, c.Coherent) ∧ s'.state.contexts.map Conditional.openCount = Event.counts Event.unbalanced := by
  have hsome : ((Event.performAll {} Event.unbalanced).run' Session.bare).isSome = true := by decide +kernel
  obtain ⟨⟨⟩, hout⟩ := Option.isSome_iff_exists.mp hsome
  obtain ⟨s', h⟩ := run'_eq_some.mp hout
  have hfresh : Session.ofSettings { standard := [] } = .ok Session.bare.state := rfl
  exact ⟨s', h, contexts_performAll {} hfresh [] Event.unbalanced h⟩

end Prepass
