import Prepass.Macro.Paste
import Prepass.Macro.Stack
import Prepass.Macro.Substitution

/-!
# Expansion

The macro invocation at the head of a list of tokens is replaced, and the replacement is read again for further invocations. While a
replacement is on the stack, the name it came from is disabled, so that a name is not replaced inside its own replacement.

Nesting is limited: the frames with tokens left to read and the levels of argument expansion together stay below the ceiling of the
expander. An invocation that goes beyond it is left as it is, with a notice. Frames that are read to their end do not count, so
a chain of renamings expands however long it is. There are never more frames than macros, since the frames have different names;
with that bound every reading comes to an end, because each of its steps lowers the rank of the stack.
-/

namespace Prepass

/-- What an invocation comes to: the tokens that replace it and how many tokens beyond its name it takes up. -/
structure Expansion where
  beyond : Nat
  tokens : List Token
  deriving DecidableEq, Repr

/-- The number of tokens that an invocation takes up. -/
def Expansion.consumed (e : Expansion) : Nat :=
  e.beyond + 1

namespace Expand

/-- What a step of work on an expander comes to, apart from the stack. -/
abbrev Outcome (α : Type) := EStateM.Result ExpandError (Logged Expander) α

/-- The tokens of the spelling of tokens, at the place of `place`. -/
def relex (tokens : List Token) (place : Token) : List Token :=
  Token.ofText (Token.spell tokens) place.line place.uri place.column

/-- The body of a function-like macro with its arguments in place, once the frames that the arguments crossed are done with. -/
def instantiate (pre : List Token → Expand (List Token)) (crossed : List String) (missing : Nat) (params : List String)
    (arguments body : List Token) (place : Token) : Expand (Option (List Token)) := do
  enableAll crossed
  if missing ≠ 0 then throw .pastEnd
  let body ← Substitution.substitute pre params (Arguments.fold params.length arguments) body
  return some (relex (Paste.paste body) place)

/-- The replacement of the invocation that begins with a name, and the stack without its arguments. There is none when the name has no
macro, or when arguments are missing or do not fit. `pre` expands arguments. -/
def replacement (pre : List Token → Expand (List Token)) (name : Token) (stack : Stack) (s : Logged Expander) :
    Stack × Outcome (Option (List Token)) :=
  match s.state.table.get? name.value with
  | none => (stack, .ok none s)
  | some m =>
    match m.params? with
    | none => (stack, .ok (some (relex (Paste.paste m.body) name)) s)
    | some params =>
      match Arguments.read (·.kind = .eof) stack.lookahead with
      | .absent => (stack, .ok none s)
      | .unclosed => (stack, .ok none (s.note .openArguments))
      | .list count arguments =>
        if m.accepts arguments.length then
          let taken := stack.consume count
          (taken.stack, instantiate pre taken.crossed taken.missing params arguments m.body name s)
        else (stack, .ok none (s.note (.argumentCount m.name params.length arguments.length)))

/-- Whether nesting has reached the ceiling. -/
def isTooDeep (e : Expander) (stack : Stack) : Bool :=
  e.maxLevel ≤ e.level + stack.openFrames

/-- A body is instantiated only when no token of its arguments is missing. -/
theorem missing_eq_zero_of_instantiate {pre : List Token → Expand (List Token)} {crossed : List String} {missing : Nat}
    {params : List String} {arguments body : List Token} {place : Token} {s s' : Logged Expander} {r : Option (List Token)}
    (h : instantiate pre crossed missing params arguments body place s = .ok r s') : missing = 0 := by
  unfold instantiate at h
  simp only [bind, EStateM.bind] at h
  split at h
  · by_cases hm : missing = 0
    · exact hm
    · rw [if_pos hm] at h
      cases h
  · cases h

/-- A replacement takes nothing off the stack, or lowers its rank so far that frames may be put on top. -/
theorem replacement_stack {pre : List Token → Expand (List Token)} {name : Token} {stack stack' : Stack}
    {s s' : Logged Expander} {r : Option (List Token)} (h : replacement pre name stack s = (stack', .ok r s')) :
    stack' = stack ∨ ∀ more, LexBelow (stack'.rank ++ more) stack.rank := by
  unfold replacement at h
  split at h
  · cases h; exact .inl rfl
  · split at h
    · cases h; exact .inl rfl
    · split at h
      · cases h; exact .inl rfl
      · cases h; exact .inl rfl
      · rename_i count arguments _
        split at h
        · simp only [Prod.mk.injEq] at h
          obtain ⟨rfl, h⟩ := h
          have hm := missing_eq_zero_of_instantiate h
          by_cases hc : count = 0
          · left
            subst hc
            cases stack with
            | mk frames input taken => cases frames <;> simp [Stack.consume, Stack.cross]
          · exact .inr fun more => Stack.rank_consume_lower _ _ _ _ (by omega) hm more
        · cases h; exact .inl rfl

/-- Disables the name of the frame that was put on a stack, and refuses a stack that is too deep. -/
def descend (name : String) (stack : Stack) : Expand Unit := fun s =>
  match disable name s with
  | .error e s => .error e s
  | .ok _ s => if isTooDeep s.state stack then .error .tooDeep s else .ok () s

/-- What one turn of reading the frames of a stack comes to: reading goes on, or it stops. `out` holds the tokens that are left so far,
latest first. -/
inductive Turn where
  | next (stack : Stack) (out : List Token) (s : Logged Expander)
  | stop (stack : Stack) (result : Outcome (List Token))

/-- The turn at an identifier that was read from the top frame: it is left, or a replacement is put on the stack for it. -/
def turnAt (pre : List Token → Expand (List Token)) (t : Token) (stack : Stack) (out : List Token) (s : Logged Expander) : Turn :=
  match replacement pre t stack s with
  | (stack, .error e s) => .stop stack (.error e s)
  | (stack, .ok none s) => .next stack (t :: out) s
  | (stack, .ok (some tokens) s) =>
    match descend t.value (stack.push t.value tokens) s with
    | .error e s => .stop (stack.push t.value tokens) (.error e s)
    | .ok _ s => .next (stack.push t.value tokens) out s

/-- One turn of reading the frames of a stack: a frame that is read to its end is taken off, or the next token of the top frame is
read. -/
def turn (pre : List Token → Expand (List Token)) (stack : Stack) (out : List Token) (s : Logged Expander) : Turn :=
  match stack.frames with
  | [] => .stop stack (.ok out.reverse s)
  | { name, unread := [] } :: below =>
    match enable name s with
    | .error e s => .stop { stack with frames := below } (.error e s)
    | .ok _ s => .next { stack with frames := below } out s
  | { name, unread := t :: unread } :: below =>
    if t.kind = .identifier then turnAt pre t { stack with frames := { name, unread } :: below } out s
    else .next { stack with frames := { name, unread } :: below } (t :: out) s

/-- After the turn at an identifier the stack is the same, or its rank is lower although frames may be put on top. -/
theorem turnAt_stack {pre : List Token → Expand (List Token)} {t : Token} {stack stack' : Stack} {out out' : List Token}
    {s s' : Logged Expander} (h : turnAt pre t stack out s = .next stack' out' s') :
    (∃ more, stack'.rank = stack.rank ++ more) ∨ LexBelow stack'.rank stack.rank := by
  unfold turnAt at h
  split at h
  · nomatch h
  · rename_i hrepl
    cases h
    rcases replacement_stack hrepl with rfl | hr
    · exact .inl ⟨[], by simp⟩
    · exact .inr (by simpa using hr [])
  · rename_i hrepl
    split at h
    · nomatch h
    · cases h
      rw [Stack.rank_push]
      rcases replacement_stack hrepl with rfl | hr
      · exact .inl ⟨_, rfl⟩
      · exact .inr (hr _)

/-- A turn lowers the rank of the stack. -/
theorem turn_lower {pre : List Token → Expand (List Token)} {stack stack' : Stack} {out out' : List Token}
    {s s' : Logged Expander} (h : turn pre stack out s = .next stack' out' s') : LexBelow stack'.rank stack.rank := by
  obtain ⟨frames, input, taken⟩ := stack
  unfold turn at h
  split at h
  · nomatch h
  · rename_i hframes
    simp only at hframes
    subst hframes
    split at h
    · nomatch h
    · cases h
      exact Stack.rank_lower_pop ..
  · rename_i name t unread below hframes
    simp only at hframes
    subst hframes
    have hlower (more : List Nat) := Stack.rank_lower_top input taken taken below { name, unread } { name, unread := t :: unread }
      (by simp) more
    split at h
    · rcases turnAt_stack h with ⟨more, hr⟩ | hr
      · rw [hr]
        exact hlower more
      · exact LexBelow.trans hr (by simpa using hlower [])
    · cases h
      simpa using hlower []

/-- What reading the frames of a stack to their end comes to, turn by turn: the tokens that are left after every invocation in them is
replaced, and the stack then. -/
def rescan (pre : List Token → Expand (List Token)) (bound : Nat) (stack : Stack) (out : List Token) (s : Logged Expander) :
    Stack × Outcome (List Token) :=
  if _hbound : bound < stack.frames.length then (stack, .error .tooManyFrames s)
  else
    match _hturn : turn pre stack out s with
    | .stop stack result => (stack, result)
    | .next stack out s => rescan pre bound stack out s
termination_by stack.rankWithin bound
decreasing_by exact Stack.rankWithin_lower (by omega) (turn_lower _hturn)

/-- What the invocation that begins with `head`, in front of an input, comes to, and the stack then. -/
def run (pre : List Token → Expand (List Token)) (head : Token) (input : List Token) (s : Logged Expander) :
    Stack × Outcome (Option (List Token)) :=
  let start : Stack := { input }
  if isTooDeep s.state start then (start, .error .tooDeep s)
  else
    match replacement pre head start s with
    | (stack, .error e s) => (stack, .error e s)
    | (stack, .ok none s) => (stack, .ok none s)
    | (stack, .ok (some tokens) s) =>
      match descend head.value (stack.push head.value tokens) s with
      | .error e s => (stack.push head.value tokens, .error e s)
      | .ok _ s =>
        match rescan pre s.state.table.size (stack.push head.value tokens) [] s with
        | (stack, .ok tokens s) => (stack, .ok (some tokens) s)
        | (stack, .error e s) => (stack, .error e s)

/-- The ways an invocation can go: there is no level left for it, nothing replaces it, its replacement nests too deeply, or its replacement is
read to the end or to a fault. -/
inductive Ran (pre : List Token → Expand (List Token)) (head : Token) (input : List Token) (s : Logged Expander) :
    Stack → Outcome (Option (List Token)) → Prop
  | tooDeep (hdeep : isTooDeep s.state { input } = true) : Ran pre head input s { input } (.error .tooDeep s)
  | unreplaced {stack : Stack} {result : Outcome (Option (List Token))} (hreplacement : replacement pre head { input } s = (stack, result))
    (hnone : ∀ tokens s₁, result ≠ .ok (some tokens) s₁) : Ran pre head input s stack result
  | refused {stack : Stack} {tokens : List Token} {s₁ s₂ : Logged Expander} {e : ExpandError}
    (hreplacement : replacement pre head { input } s = (stack, .ok (some tokens) s₁))
    (hdescend : descend head.value (stack.push head.value tokens) s₁ = .error e s₂) :
    Ran pre head input s (stack.push head.value tokens) (.error e s₂)
  | read {stack stack' : Stack} {tokens out : List Token} {s₁ s₂ s₃ : Logged Expander}
    (hreplacement : replacement pre head { input } s = (stack, .ok (some tokens) s₁))
    (hdescend : descend head.value (stack.push head.value tokens) s₁ = .ok () s₂)
    (hread : rescan pre s₂.state.table.size (stack.push head.value tokens) [] s₂ = (stack', .ok out s₃)) :
    Ran pre head input s stack' (.ok (some out) s₃)
  | stopped {stack stack' : Stack} {tokens : List Token} {s₁ s₂ s₃ : Logged Expander} {e : ExpandError}
    (hreplacement : replacement pre head { input } s = (stack, .ok (some tokens) s₁))
    (hdescend : descend head.value (stack.push head.value tokens) s₁ = .ok () s₂)
    (hread : rescan pre s₂.state.table.size (stack.push head.value tokens) [] s₂ = (stack', .error e s₃)) :
    Ran pre head input s stack' (.error e s₃)

theorem ran_of_run {pre : List Token → Expand (List Token)} {head : Token} {input : List Token} {s : Logged Expander} {stack : Stack}
    {result : Outcome (Option (List Token))} (h : run pre head input s = (stack, result)) : Ran pre head input s stack result := by
  unfold run at h
  dsimp only at h
  split at h
  · rename_i hdeep
    cases h
    exact .tooDeep hdeep
  · split at h
    · rename_i hreplacement
      cases h
      exact .unreplaced hreplacement nofun
    · rename_i hreplacement
      cases h
      exact .unreplaced hreplacement nofun
    · rename_i hreplacement
      split at h
      · rename_i hdescend
        cases h
        exact .refused hreplacement hdescend
      · rename_i hdescend
        split at h
        · rename_i hread
          cases h
          exact .read hreplacement hdescend hread
        · rename_i hread
          cases h
          exact .stopped hreplacement hdescend hread

/-- Enables the names of all frames left on a stack. -/
def unwind (stack : Stack) : Expand Unit :=
  enableAll (stack.frames.map Frame.name)

/-- What an invocation comes to once its stack is unwound and its level is left: nesting too deeply counts as no invocation. -/
def settle (head : Token) (stack : Stack) (result : Outcome (Option (List Token))) : Outcome (Option Expansion) :=
  let leave (s : Logged Expander) : Logged Expander := { s with state := s.state.leave }
  match result with
  | .ok none s =>
    match unwind stack s with
    | .ok _ s => .ok none (leave s)
    | .error e s => .error e (leave s)
  | .ok (some tokens) s =>
    match unwind stack s with
    | .ok _ s => .ok (some { beyond := stack.taken, tokens := Token.relocate tokens head }) (leave s)
    | .error e s => .error e (leave s)
  | .error .tooDeep s =>
    match unwind stack (s.note (.tooDeep head.value s.state.maxLevel)) with
    | .ok _ s => .ok none (leave s)
    | .error e s => .error e (leave s)
  | .error e s =>
    match unwind stack s with
    | .ok _ s => .error e (leave s)
    | .error e' s => .error e' (leave s)

/-- The expansion of the invocation at a place in a list of tokens, where `pre` expands arguments. -/
def headWithin (pre : List Token → Expand (List Token)) (tokens : List Token) (start : Nat := 0) : Expand (Option Expansion) := fun s =>
  match tokens.drop start with
  | [] => .ok none s
  | head :: input =>
    if s.state.table.contains head.value then
      let (stack, result) := run pre head input { s with state := s.state.enter }
      settle head stack result
    else .ok none s

/-- At a place there is nothing to expand, or what is read there one level further in is settled. -/
theorem headWithin_cases (pre : List Token → Expand (List Token)) (tokens : List Token) (start : Nat) (s : Logged Expander) :
    headWithin pre tokens start s = .ok none s ∨
    ∃ head input stack result, tokens.drop start = head :: input ∧
      run pre head input { s with state := s.state.enter } = (stack, result) ∧
      headWithin pre tokens start s = settle head stack result := by
  unfold headWithin
  cases hdrop : tokens.drop start with
  | nil => exact .inl rfl
  | cons head input =>
    dsimp only
    split
    · exact .inr ⟨head, input, _, _, rfl, rfl, rfl⟩
    · exact .inl rfl

/-- Tokens with every invocation of an identifier replaced, where `head` expands the invocation at the head of a list. -/
def allWith (head : List Token → Expand (Option Expansion)) : List Token → Expand (List Token)
  | [] => pure []
  | t :: rest => do
    if t.kind = .identifier then
      match ← head (t :: rest) with
      | some e => return e.tokens ++ (← allWith head (rest.drop e.beyond))
      | none => return t :: (← allWith head rest)
    else return t :: (← allWith head rest)
termination_by tokens => tokens.length
decreasing_by
  · simp only [List.length_drop, List.length_cons]; omega
  · simp
  · simp

/-- Expands all tokens of an argument with so many levels left; when none is left, every invocation nests too deeply. -/
def argument : Nat → List Token → Expand (List Token)
  | 0 => allWith fun tokens => headWithin (fun _ => throw .tooDeep) tokens
  | levels + 1 => allWith fun tokens => headWithin (argument levels) tokens

/-- The levels left below the ceiling. -/
def levelsLeft (e : Expander) : Nat :=
  (e.maxLevel - e.level).toNat

/-- The expansion of the invocation at a place in a list of tokens; there is none when nothing is replaced. -/
def head (tokens : List Token) (start : Nat := 0) : Expand (Option Expansion) := fun s =>
  headWithin (argument (levelsLeft s.state)) tokens start s

/-- Tokens with every invocation of an identifier replaced. -/
def all (tokens : List Token) : Expand (List Token) :=
  allWith (fun window => head window) tokens

end Expand

end Prepass
