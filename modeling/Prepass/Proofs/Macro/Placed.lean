import Prepass.Proofs.Macro.Restoring

/-!
# Expansion by place

An expansion can be addressed by place: every frame, and the window at the bottom, keeps all of its tokens with the place from which on
they are still to be read, and the invocation stands anywhere in the window. The places in the frames begin at zero, but those in the
window begin where the invocation stands. Such a reading is told here from beginning to end, and it is the same work as reading from
the front of what is left (`Placed.head_eq_drop`, `Placed.all_eq`).

The stack of a reading by place stands for the stack that holds only what is unread (`PlacedStack.At`). Every turn of reading goes alike
on both, so that a reading by place comes to an end as the other one does, and takes up as many tokens of the window beyond the
invocation as the other takes of its input.
-/

namespace Prepass

/-! ## Tokens read at a place -/

/-- Tokens that are read from a place on. -/
structure Reader where
  tokens : List Token
  pos : Nat := 0
  deriving DecidableEq, Repr

namespace Reader

/-- The token at the place, if the end is not reached. -/
def next? (r : Reader) : Option Token :=
  r.tokens[r.pos]?

/-- The number of tokens from the place on. -/
def available (r : Reader) : Nat :=
  r.tokens.length - r.pos

/-- The reader so many tokens further on. -/
def advance (r : Reader) (count : Nat) : Reader :=
  { r with pos := r.pos + count }

/-- The tokens from the place on. -/
def unread (r : Reader) : List Token :=
  r.tokens.drop r.pos

/-- As many tokens are unread as there are available. -/
theorem length_unread (r : Reader) : r.unread.length = r.available :=
  List.length_drop

/-- Advancing drops what is unread. -/
@[simp]
theorem unread_advance (r : Reader) (count : Nat) : (r.advance count).unread = r.unread.drop count := by
  simp [unread, advance, List.drop_drop]

/-- Nothing is left to read when there is no next token. -/
theorem unread_of_next_none {r : Reader} (h : r.next? = none) : r.unread = [] := by
  rw [unread, List.drop_eq_nil_iff]
  exact List.getElem?_eq_none_iff.mp h

/-- The next token is the first of those left, and the others are left one token further on. -/
theorem unread_of_next_some {r : Reader} {t : Token} (h : r.next? = some t) : r.unread = t :: (r.advance 1).unread := by
  obtain ⟨hlt, hget⟩ := List.getElem?_eq_some_iff.mp h
  show r.tokens.drop r.pos = t :: r.tokens.drop (r.pos + 1)
  rw [List.drop_eq_getElem_cons hlt, hget]

end Reader

/-- The replacement of a macro, read at a place. -/
structure PlacedFrame where
  name : String
  reader : Reader
  deriving DecidableEq, Repr

/-- The frame that holds what is left of a replacement read at a place. -/
def PlacedFrame.left (f : PlacedFrame) : Frame :=
  { name := f.name, unread := f.reader.unread }

/-- Frames read at places of their own, innermost first, above a window read at a place. -/
structure PlacedStack where
  frames : List PlacedFrame := []
  window : Reader
  deriving DecidableEq, Repr

namespace PlacedStack

/-- The tokens still to be read, innermost frame first. -/
def lookahead (r : PlacedStack) : List Token :=
  r.frames.flatMap (·.reader.unread) ++ r.window.unread

/-- The stack with one more frame, which is read from its beginning. -/
def push (r : PlacedStack) (name : String) (tokens : List Token) : PlacedStack :=
  { r with frames := { name, reader := { tokens } } :: r.frames }

/-- The number of frames whose end is not reached. -/
def openFrames (r : PlacedStack) : Nat :=
  (r.frames.filter (·.reader.available ≠ 0)).length

/-- Advances past tokens of frames: the frames left, the names of those crossed, and how many tokens are still to be passed. -/
def cross : List PlacedFrame → Nat → List PlacedFrame × List String × Nat
  | [], count => ([], [], count)
  | f :: below, count =>
    if count ≤ f.reader.available then ({ f with reader := f.reader.advance count } :: below, [], 0)
    else
      let (left, names, more) := cross below (count - f.reader.available)
      (left, f.name :: names, more)

/-- What advancing past tokens of a stack leaves. -/
structure Consumed where
  stack : PlacedStack
  crossed : List String
  missing : Nat

/-- Advances past tokens of the frames and then of the window. -/
def consume (r : PlacedStack) (count : Nat) : Consumed :=
  let (frames, crossed, more) := cross r.frames count
  { stack := { frames, window := r.window.advance more }, crossed, missing := more - r.window.available }

/-- The stack of what is left to read, whose input begins at a place of the window. -/
def stackFrom (base : Nat) (r : PlacedStack) : Stack :=
  { frames := r.frames.map PlacedFrame.left, input := r.window.unread, taken := r.window.pos - base }

/-- A stack read by place stands for another one whose input begins at the place `base` of the window: both have the same left to read. -/
structure At (base : Nat) (r : PlacedStack) (stack : Stack) : Prop where
  frames_eq : stack.frames = r.frames.map PlacedFrame.left
  input_eq : stack.input = r.window.unread
  pos_eq : r.window.pos = base + stack.taken

/-- The other stack is the one of what is left to read. -/
theorem At.stackFrom_eq {base : Nat} {r : PlacedStack} {stack : Stack} (h : r.At base stack) : r.stackFrom base = stack := by
  obtain ⟨frames, input, taken⟩ := stack
  simp only [stackFrom, ← h.frames_eq, ← h.input_eq, h.pos_eq, Nat.add_sub_cancel_left]

/-- A stack read by place stands for the one of what is left to read. -/
theorem at_stackFrom {base : Nat} {r : PlacedStack} (h : base ≤ r.window.pos) : r.At base (r.stackFrom base) :=
  ⟨rfl, rfl, (Nat.add_sub_cancel' h).symm⟩

/-- At first nothing of the window is taken beyond the place. -/
theorem at_start (tokens : List Token) (pos : Nat) : At pos { window := { tokens, pos } } { input := tokens.drop pos } :=
  ⟨rfl, rfl, rfl⟩

namespace At

variable {base : Nat} {r : PlacedStack} {stack : Stack}

/-- Both stacks have the same tokens ahead. -/
theorem lookahead_eq (h : r.At base stack) : r.lookahead = stack.lookahead := by
  rw [lookahead, Stack.lookahead, h.frames_eq, h.input_eq, List.flatMap_map]
  rfl

/-- One more frame on both stacks leaves the same to read. -/
theorem push (h : r.At base stack) (name : String) (tokens : List Token) :
    (r.push name tokens).At base (stack.push name tokens) :=
  ⟨by simp [PlacedStack.push, Stack.push, h.frames_eq, PlacedFrame.left, Reader.unread], h.input_eq, h.pos_eq⟩

/-- Both stacks have as many frames that are not at their end. -/
theorem openFrames_eq (h : r.At base stack) : r.openFrames = stack.openFrames := by
  have hopen : (fun f : PlacedFrame => decide (f.reader.available ≠ 0)) = (fun f => decide (f.unread ≠ [])) ∘ PlacedFrame.left := by
    funext f
    refine decide_eq_decide.mpr (not_congr ?_)
    rw [← Reader.length_unread, List.length_eq_zero_iff]
    rfl
  rw [openFrames, Stack.openFrames, h.frames_eq, List.filter_map, List.length_map, hopen]

/-- Passing tokens of frames by place leaves the frames that taking the tokens leaves. -/
theorem cross_left (frames : List PlacedFrame) (count : Nat) :
    Stack.cross (frames.map PlacedFrame.left) count =
      ((cross frames count).1.map PlacedFrame.left, (cross frames count).2) := by
  induction frames generalizing count with
  | nil => rfl
  | cons f below ih =>
    have hlength : f.left.unread.length = f.reader.available := f.reader.length_unread
    rw [List.map_cons, Stack.cross, PlacedStack.cross, hlength]
    split
    · simp [PlacedFrame.left]
    · rw [ih]
      rfl

/-- Tokens are passed by place as they are taken: the same frames are crossed, and as many tokens are missing. -/
theorem consume (h : r.At base stack) (count : Nat) :
    (r.consume count).stack.At base (stack.consume count).stack ∧
      (r.consume count).crossed = (stack.consume count).crossed ∧ (r.consume count).missing = (stack.consume count).missing := by
  have hcross := cross_left r.frames count
  rw [← h.frames_eq] at hcross
  refine ⟨⟨?_, ?_, ?_⟩, ?_, ?_⟩
  · simp only [Stack.consume, PlacedStack.consume, hcross]
  · simp only [Stack.consume, PlacedStack.consume, hcross, h.input_eq, Reader.unread_advance]
  · simp only [Stack.consume, PlacedStack.consume, hcross, Reader.advance, h.pos_eq, Nat.add_assoc]
  · simp only [Stack.consume, PlacedStack.consume, hcross]
  · simp only [Stack.consume, PlacedStack.consume, hcross, h.input_eq, List.length_take, Reader.length_unread]
    show (cross r.frames count).2.2 - _ = (cross r.frames count).2.2 - _
    omega

end At

end PlacedStack

/-! ## Turns of reading -/

namespace Placed

open Expand (Outcome instantiate relex)

/-- What a step of a reading by place and a step of the other reading come to: the same, and stacks with the same left to read. -/
structure SameReading {α : Type} (base : Nat) (p : PlacedStack × Outcome α) (q : Stack × Outcome α) : Prop where
  left : p.1.At base q.1
  result_eq : p.2 = q.2

/-- The replacement of the invocation that begins with a name, and the stack past its arguments. -/
def replacement (pre : List Token → Expand (List Token)) (name : Token) (r : PlacedStack) (s : Logged Expander) :
    PlacedStack × Outcome (Option (List Token)) :=
  match s.state.table.get? name.value with
  | none => (r, .ok none s)
  | some m =>
    match m.params? with
    | none => (r, .ok (some (relex (Paste.paste m.body) name)) s)
    | some params =>
      match Arguments.read (·.kind = .eof) r.lookahead with
      | .absent => (r, .ok none s)
      | .unclosed => (r, .ok none (s.note .openArguments))
      | .list count arguments =>
        if m.accepts arguments.length then
          let passed := r.consume count
          (passed.stack, instantiate pre passed.crossed passed.missing params arguments m.body name s)
        else (r, .ok none (s.note (.argumentCount m.name params.length arguments.length)))

/-- Whether nesting has reached the ceiling. -/
def isTooDeep (e : Expander) (r : PlacedStack) : Bool :=
  e.maxLevel ≤ e.level + r.openFrames

/-- Disables the name of the frame that was put on a stack, and refuses a stack that is too deep. -/
def descend (name : String) (r : PlacedStack) : Expand Unit := fun s =>
  match Expand.disable name s with
  | .error e s => .error e s
  | .ok _ s => if isTooDeep s.state r then .error .tooDeep s else .ok () s

/-- What one turn of reading comes to: reading goes on, or it stops. -/
inductive Turn where
  | next (r : PlacedStack) (out : List Token) (s : Logged Expander)
  | stop (r : PlacedStack) (result : Outcome (List Token))

/-- The turn at an identifier that was read from the top frame. -/
def turnAt (pre : List Token → Expand (List Token)) (t : Token) (r : PlacedStack) (out : List Token) (s : Logged Expander) : Turn :=
  match replacement pre t r s with
  | (r, .error e s) => .stop r (.error e s)
  | (r, .ok none s) => .next r (t :: out) s
  | (r, .ok (some tokens) s) =>
    match descend t.value (r.push t.value tokens) s with
    | .error e s => .stop (r.push t.value tokens) (.error e s)
    | .ok _ s => .next (r.push t.value tokens) out s

/-- One turn of reading the frames of a stack: a frame whose end is reached is taken off, or the token at the place of the top frame
is read. -/
def turn (pre : List Token → Expand (List Token)) (r : PlacedStack) (out : List Token) (s : Logged Expander) : Turn :=
  match r.frames with
  | [] => .stop r (.ok out.reverse s)
  | f :: below =>
    match f.reader.next? with
    | none =>
      match Expand.enable f.name s with
      | .error e s => .stop { r with frames := below } (.error e s)
      | .ok _ s => .next { r with frames := below } out s
    | some t =>
      let read : PlacedStack := { r with frames := { f with reader := f.reader.advance 1 } :: below }
      if t.kind = .identifier then turnAt pre t read out s else .next read (t :: out) s

/-- Two turns that come to the same, with the same left to read. -/
inductive Turn.Same (base : Nat) : Turn → Expand.Turn → Prop
  | next {r : PlacedStack} {stack : Stack} (h : r.At base stack) (out : List Token) (s : Logged Expander) :
    Turn.Same base (.next r out s) (.next stack out s)
  | stop {r : PlacedStack} {stack : Stack} (h : r.At base stack) (result : Outcome (List Token)) :
    Turn.Same base (.stop r result) (.stop stack result)

section

variable {base : Nat} {r : PlacedStack} {stack : Stack} (pre : List Token → Expand (List Token))

/-- A name is replaced the same way, and its arguments are taken from what both stacks have left. -/
theorem replacement_same (name : Token) (h : r.At base stack) (s : Logged Expander) :
    SameReading base (replacement pre name r s) (Expand.replacement pre name stack s) := by
  unfold replacement Expand.replacement
  rw [h.lookahead_eq]
  cases s.state.table.get? name.value with
  | none => exact ⟨h, rfl⟩
  | some m =>
    dsimp only
    cases m.params? with
    | none => exact ⟨h, rfl⟩
    | some params =>
      dsimp only
      cases Arguments.read (·.kind = .eof) stack.lookahead with
      | absent => exact ⟨h, rfl⟩
      | unclosed => exact ⟨h, rfl⟩
      | list count arguments =>
        dsimp only
        split
        · obtain ⟨hleft, hcrossed, hmissing⟩ := h.consume count
          rw [hcrossed, hmissing]
          exact ⟨hleft, rfl⟩
        · exact ⟨h, rfl⟩

/-- Both stacks are too deep, or neither is. -/
theorem isTooDeep_eq (h : r.At base stack) (e : Expander) : isTooDeep e r = Expand.isTooDeep e stack := by
  rw [isTooDeep, Expand.isTooDeep, h.openFrames_eq]

/-- A frame is entered in the same way on both stacks. -/
theorem descend_eq (h : r.At base stack) (name : String) : descend name r = Expand.descend name stack := by
  funext s
  unfold descend Expand.descend
  cases Expand.disable name s with
  | ok done s₁ =>
    dsimp only
    rw [isTooDeep_eq h]
  | error e s₁ => rfl

/-- The turn at an identifier goes alike. -/
theorem turnAt_same (t : Token) (h : r.At base stack) (out : List Token) (s : Logged Expander) :
    (turnAt pre t r out s).Same base (Expand.turnAt pre t stack out s) := by
  unfold turnAt Expand.turnAt
  obtain ⟨hleft, hresult⟩ := replacement_same pre t h s
  generalize replacement pre t r s = p at hleft hresult
  generalize Expand.replacement pre t stack s = q at hleft hresult
  obtain ⟨r₁, result⟩ := p
  obtain ⟨stack₁, result'⟩ := q
  obtain rfl : result = result' := hresult
  cases result with
  | error e s₁ => exact .stop hleft _
  | ok found s₁ =>
    cases found with
    | none => exact .next hleft _ _
    | some tokens =>
      have hpush := hleft.push t.value tokens
      dsimp only
      rw [descend_eq hpush]
      cases Expand.descend t.value (stack₁.push t.value tokens) s₁ with
      | ok done s₂ => exact .next hpush _ _
      | error e s₂ => exact .stop hpush _

/-- A turn goes alike on stacks with the same left to read. -/
theorem turn_same (h : r.At base stack) (out : List Token) (s : Logged Expander) :
    (turn pre r out s).Same base (Expand.turn pre stack out s) := by
  obtain ⟨frames, window⟩ := r
  obtain ⟨left, input, taken⟩ := stack
  obtain ⟨rfl, rfl, hpos⟩ := h
  have hleft (frames : List PlacedFrame) : PlacedStack.At base { frames, window }
      { frames := frames.map PlacedFrame.left, input := window.unread, taken } := ⟨rfl, rfl, hpos⟩
  unfold turn Expand.turn
  cases frames with
  | nil => exact .stop (hleft []) _
  | cons f below =>
    cases hnext : f.reader.next? with
    | none =>
      simp only [List.map_cons, PlacedFrame.left, Reader.unread_of_next_none hnext, hnext]
      cases Expand.enable f.name s with
      | ok done s₁ => exact .next (hleft below) _ _
      | error e s₁ => exact .stop (hleft below) _
    | some t =>
      have hread := hleft ({ f with reader := f.reader.advance 1 } :: below)
      simp only [List.map_cons, PlacedFrame.left, Reader.unread_of_next_some hnext, hnext]
      split
      · exact turnAt_same pre t hread out s
      · exact .next hread _ _

/-- A turn lowers the rank of what is left to read. -/
theorem turn_lower {r' : PlacedStack} {out out' : List Token} {s s' : Logged Expander} (h : turn pre r out s = .next r' out' s') :
    LexBelow (r'.stackFrom 0).rank (r.stackFrom 0).rank := by
  have hsame := turn_same pre (PlacedStack.at_stackFrom (Nat.zero_le r.window.pos)) out s
  rw [h] at hsame
  cases hturn : Expand.turn pre (r.stackFrom 0) out s with
  | stop stack' result =>
    rw [hturn] at hsame
    cases hsame
  | next stack' out₁ s₁ =>
    rw [hturn] at hsame
    cases hsame with
    | next hleft _ _ =>
      rw [hleft.stackFrom_eq]
      exact Expand.turn_lower hturn

end

/-! ## Readings -/

/-- What reading the frames of a stack to their end comes to, turn by turn. -/
def rescan (pre : List Token → Expand (List Token)) (bound : Nat) (r : PlacedStack) (out : List Token) (s : Logged Expander) :
    PlacedStack × Outcome (List Token) :=
  if _hbound : bound < r.frames.length then (r, .error .tooManyFrames s)
  else
    match _hturn : turn pre r out s with
    | .stop r result => (r, result)
    | .next r out s => rescan pre bound r out s
termination_by (r.stackFrom 0).rankWithin bound
decreasing_by
  refine Stack.rankWithin_lower ?_ (turn_lower pre _hturn)
  simp only [PlacedStack.stackFrom, List.length_map]
  omega

/-- What the invocation that begins with `head` comes to, where the window is read from a place beyond it, and the stack then. -/
def run (pre : List Token → Expand (List Token)) (head : Token) (window : Reader) (s : Logged Expander) :
    PlacedStack × Outcome (Option (List Token)) :=
  let start : PlacedStack := { window }
  if isTooDeep s.state start then (start, .error .tooDeep s)
  else
    match replacement pre head start s with
    | (r, .error e s) => (r, .error e s)
    | (r, .ok none s) => (r, .ok none s)
    | (r, .ok (some tokens) s) =>
      match descend head.value (r.push head.value tokens) s with
      | .error e s => (r.push head.value tokens, .error e s)
      | .ok _ s =>
        match rescan pre s.state.table.size (r.push head.value tokens) [] s with
        | (r, .ok tokens s) => (r, .ok (some tokens) s)
        | (r, .error e s) => (r, .error e s)

/-- The expansion of the invocation at a place of a window. The tokens it takes up are counted from that place to where the window is
read then. -/
def headWithin (pre : List Token → Expand (List Token)) (tokens : List Token) (start : Nat) : Expand (Option Expansion) := fun s =>
  match tokens[start]? with
  | none => .ok none s
  | some head =>
    if s.state.table.contains head.value then
      let (r, result) := run pre head { tokens, pos := start + 1 } { s with state := s.state.enter }
      Expand.settle head (r.stackFrom (start + 1)) result
    else .ok none s

/-- The tokens from a place on with every invocation of an identifier replaced, where `head` expands the invocation at a place. -/
def allFrom (head : List Token → Nat → Expand (Option Expansion)) (tokens : List Token) (pos : Nat) : Expand (List Token) :=
  if h : pos < tokens.length then do
    let t := tokens[pos]
    if t.kind = .identifier then
      match ← head tokens pos with
      | some e => return e.tokens ++ (← allFrom head tokens (pos + e.consumed))
      | none => return t :: (← allFrom head tokens (pos + 1))
    else return t :: (← allFrom head tokens (pos + 1))
  else pure []
termination_by tokens.length - pos
decreasing_by
  · simp only [Expansion.consumed]; omega
  · omega
  · omega

/-- Expands all tokens of an argument with so many levels left. -/
def argument : Nat → List Token → Expand (List Token)
  | 0 => fun tokens => allFrom (headWithin fun _ => throw .tooDeep) tokens 0
  | levels + 1 => fun tokens => allFrom (headWithin (argument levels)) tokens 0

/-- The expansion of the invocation at a place of a window. -/
def head (tokens : List Token) (start : Nat) : Expand (Option Expansion) := fun s =>
  headWithin (argument (Expand.levelsLeft s.state)) tokens start s

/-- Tokens with every invocation of an identifier replaced, from place to place. -/
def all (tokens : List Token) : Expand (List Token) :=
  allFrom head tokens 0

variable {base : Nat} (pre : List Token → Expand (List Token))

/-- Reading to the end comes to the same: as a turn does, all turns do. -/
theorem rescan_same (bound : Nat) {r : PlacedStack} {stack : Stack} (h : r.At base stack) (out : List Token) (s : Logged Expander) :
    SameReading base (rescan pre bound r out s) (Expand.rescan pre bound stack out s) := by
  have hlength {r : PlacedStack} {stack : Stack} (h : r.At base stack) : stack.frames.length = r.frames.length := by
    rw [h.frames_eq, List.length_map]
  fun_induction rescan pre bound r out s generalizing stack with
  | case1 r out s htoo =>
    rw [Expand.rescan, dif_pos (by rw [hlength h]; exact htoo)]
    exact ⟨h, rfl⟩
  | case2 r out s hle r' result hturn =>
    have hle' : ¬bound < stack.frames.length := by rw [hlength h]; exact hle
    have hsame := turn_same pre h out s
    rw [hturn] at hsame
    cases hturn' : Expand.turn pre stack out s with
    | stop stack' result' =>
      rw [hturn'] at hsame
      cases hsame with
      | stop hleft _ =>
        rw [Expand.rescan_of_stop hle' hturn']
        exact ⟨hleft, rfl⟩
    | next stack' out' s' =>
      rw [hturn'] at hsame
      cases hsame
  | case3 r out s hle r' out' s' hturn ih =>
    have hle' : ¬bound < stack.frames.length := by rw [hlength h]; exact hle
    have hsame := turn_same pre h out s
    rw [hturn] at hsame
    cases hturn' : Expand.turn pre stack out s with
    | stop stack' result' =>
      rw [hturn'] at hsame
      cases hsame
    | next stack' out₁ s₁ =>
      rw [hturn'] at hsame
      cases hsame with
      | next hleft _ _ =>
        rw [Expand.rescan_of_next hle' hturn']
        exact ih hleft

/-- An invocation comes to the same when the window is read from a place and when the input is what is left from there. -/
theorem run_same (head : Token) (tokens : List Token) (pos : Nat) (s : Logged Expander) :
    SameReading pos (run pre head { tokens, pos } s) (Expand.run pre head (tokens.drop pos) s) := by
  have hstart := PlacedStack.at_start tokens pos
  unfold run Expand.run
  dsimp only
  rw [isTooDeep_eq hstart]
  split
  · exact ⟨hstart, rfl⟩
  · obtain ⟨hleft, hresult⟩ := replacement_same pre head hstart s
    generalize replacement pre head { window := { tokens, pos } } s = p at hleft hresult
    generalize Expand.replacement pre head { input := tokens.drop pos } s = q at hleft hresult
    obtain ⟨r₁, result⟩ := p
    obtain ⟨stack₁, result'⟩ := q
    obtain rfl : result = result' := hresult
    cases result with
    | error e s₁ => exact ⟨hleft, rfl⟩
    | ok found s₁ =>
      cases found with
      | none => exact ⟨hleft, rfl⟩
      | some body =>
        have hpush := hleft.push head.value body
        dsimp only
        rw [descend_eq hpush]
        cases Expand.descend head.value (stack₁.push head.value body) s₁ with
        | error e s₂ => exact ⟨hpush, rfl⟩
        | ok done s₂ =>
          dsimp only
          obtain ⟨hread, hout⟩ := rescan_same pre s₂.state.table.size hpush [] s₂
          generalize rescan pre s₂.state.table.size (r₁.push head.value body) [] s₂ = p at hread hout
          generalize Expand.rescan pre s₂.state.table.size (stack₁.push head.value body) [] s₂ = q at hread hout
          obtain ⟨r₃, out⟩ := p
          obtain ⟨stack₃, out'⟩ := q
          obtain rfl : out = out' := hout
          cases out with
          | ok left s₃ => exact ⟨hread, rfl⟩
          | error e s₃ => exact ⟨hread, rfl⟩

/-- The invocation at a place of a window comes to what the invocation at the head of the rest comes to. -/
theorem headWithin_eq_drop (tokens : List Token) (start : Nat) :
    headWithin pre tokens start = Expand.headWithin pre (tokens.drop start) := by
  funext s
  unfold headWithin Expand.headWithin
  rw [List.drop_zero]
  by_cases hlt : start < tokens.length
  · rw [List.getElem?_eq_getElem hlt, List.drop_eq_getElem_cons hlt]
    dsimp only
    split
    · obtain ⟨hleft, hresult⟩ := run_same pre tokens[start] tokens (start + 1) { s with state := s.state.enter }
      rw [hleft.stackFrom_eq, hresult]
    · rfl
  · rw [List.getElem?_eq_none (Nat.not_lt.mp hlt), List.drop_eq_nil_of_le (Nat.not_lt.mp hlt)]

/-- Expanding from place to place is expanding what is left each time, when the invocation at a place is that at the head of the rest. -/
theorem allFrom_eq_drop {head : List Token → Nat → Expand (Option Expansion)} {first : List Token → Expand (Option Expansion)}
    (hhead : ∀ tokens start, head tokens start = first (tokens.drop start)) (tokens : List Token) (pos : Nat) :
    allFrom head tokens pos = Expand.allWith first (tokens.drop pos) := by
  fun_induction allFrom head tokens pos with
  | case1 pos hlt t hname ihSome ihNone =>
    rw [hhead, List.drop_eq_getElem_cons hlt, Expand.allWith, if_pos hname]
    refine congrArg _ (funext fun found => ?_)
    cases found with
    | none => exact congrArg (· >>= _) ihNone
    | some e =>
      have hrest : tokens.drop (pos + e.consumed) = (tokens.drop (pos + 1)).drop e.beyond := by
        rw [List.drop_drop, Expansion.consumed, Nat.add_assoc, Nat.add_comm 1]
      dsimp only
      rw [ihSome, hrest]
  | case2 pos hlt t hname ih =>
    rw [ih, List.drop_eq_getElem_cons hlt, Expand.allWith, if_neg hname]
  | case3 pos hge => rw [List.drop_eq_nil_of_le (Nat.not_lt.mp hge), Expand.allWith]

/-- Arguments are expanded the same by place and otherwise, at every level. -/
theorem argument_eq (levels : Nat) : argument levels = Expand.argument levels := by
  induction levels with
  | zero =>
    funext tokens
    exact allFrom_eq_drop (headWithin_eq_drop _) tokens 0
  | succ levels ih =>
    funext tokens
    rw [argument, Expand.argument, ih]
    exact allFrom_eq_drop (headWithin_eq_drop _) tokens 0

/-- The invocation at a place of a window comes to what the invocation at the head of the rest comes to, with the arguments expanded from
place to place as well. -/
theorem head_eq_drop (tokens : List Token) (start : Nat) : head tokens start = Expand.head (tokens.drop start) := by
  funext s
  rw [head, Expand.head, argument_eq, headWithin_eq_drop]

/-- Expanding all tokens from place to place is expanding the head of what is left each time. -/
theorem all_eq (tokens : List Token) : all tokens = Expand.all tokens :=
  allFrom_eq_drop head_eq_drop tokens 0

end Placed

end Prepass
