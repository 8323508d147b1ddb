import Prepass.Proofs.Conditional.Role
import Prepass.Proofs.Session.Aloof

/-!
# Sources as trees

A source whose conditionals are nested well is a tree (`Block`): text, directives that are no conditionals, and conditionals with their
groups. Preprocessing a tree follows its branches (`Block.process`): of each conditional the first group whose condition holds is
preprocessed, or the last one when none holds; a directive that cannot be parsed counts as one that holds. Nothing comes of the
other groups but what parsing their directives gives to tell, and no condition after the chosen group is looked at. The state of the
conditionals has no part in it (`Block.aloof_process`).
-/

namespace Prepass

namespace SessionM

/-! ## Single tokens -/

/-- Tells what parsing a token gives to tell. -/
def tell (t : Token) : SessionM Unit :=
  noteAll t.told

/-- Whether what a directive line asks for holds. -/
def verdict (d : Directive) (t : Token) (place : Place) : SessionM Bool := do
  match d with
  | .ifdef name negated => return (← current).table.contains name.value != negated
  | .ifLine expression =>
    note (.ifReached place t.value)
    condition expression t place
  | .elifLine expression =>
    note (.elifReached place t.value)
    condition expression t place
  | _ => return true

/-- A verdict with a notice when it is false. -/
def tellFalse (x : SessionM Bool) (n : Notice) : SessionM Bool := do
  let active ← x
  if !active then note n
  return active

/-- Whether the group after a directive is to be preprocessed, when no group before it was. A directive that cannot be parsed counts as
one that holds. -/
def holds (t : Token) : SessionM Bool := do
  tell t
  match t.line? with
  | none => return true
  | some l =>
    let place ← placeOf t
    tellFalse (verdict l.directive t place) (.conditionFalse place t.value)

/-- Tells a further branch after the chosen group; that it is skipped is told when it can be parsed. -/
def tellSkipped (t : Token) : SessionM Unit := do
  tell t
  if t.line?.isSome then note (.elifSkipped (← placeOf t))

/-- Carries out a directive that is no conditional; one that cannot be parsed does nothing. -/
def perform (files : FileAccess) (t : Token) : SessionM Unit := do
  tell t
  match t.line? with
  | none => return
  | some l => carryOut files l (← placeOf t)

/-- What becomes of a token of text at the head of a window. -/
def textAction (t : Token) (window : List Token) : SessionM Action := do
  match t.kind with
  | .stringLiteral | .numberLiteral => return .keep
  | _ => handleName window 0 (← placeOf t)

/-- Telling things has nothing to do with conditionals. -/
theorem aloof_noteAll (ns : List Notice) : Aloof (noteAll ns) :=
  fun c saved => (lasting_beside {} c saved).noteAll ns

/-- Neither has telling what parsing gives to tell. -/
theorem aloof_tell (t : Token) : Aloof (tell t) :=
  aloof_noteAll t.told

theorem aloof_note (n : Notice) : Aloof (note n) :=
  fun c saved => (lasting_beside {} c saved).note n

/-- The place of a token depends on the file that is included, and on nothing else of conditionals. -/
theorem aloof_placeOf (t : Token) : Aloof (placeOf t) :=
  fun c saved => (lasting_beside {} c saved).placeOf t

/-- What a directive asks for is asked of the macros. -/
theorem aloof_verdict (d : Directive) (t : Token) (place : Place) : Aloof (verdict d t place) := by
  intro c saved
  have hlast := lasting_beside {} c saved
  unfold verdict
  split
  · refine respects_current_bind fun s s' h => ?_
    rw [hlast.table_eq h]
    exact .ok _ h
  · exact (hlast.note _).bind fun _ => hlast.condition _ t place
  · exact (hlast.note _).bind fun _ => hlast.condition _ t place
  · exact .pure _

/-- A verdict may be told when it is false. -/
theorem aloof_tellFalse {x : SessionM Bool} (hx : Aloof x) (n : Notice) : Aloof (tellFalse x n) := by
  refine hx.bind fun active => ?_
  cases active with
  | true => exact .pure _
  | false => exact (aloof_note n).bind fun _ => .pure _

/-- Whether a group is to be preprocessed is asked of its directive and the macros. -/
theorem aloof_holds (t : Token) : Aloof (holds t) := by
  refine (aloof_tell t).bind fun _ => ?_
  split
  · exact .pure _
  · exact (aloof_placeOf t).bind fun place => aloof_tellFalse (aloof_verdict _ t place) _

/-- Telling a further branch changes no conditional. -/
theorem aloof_tellSkipped (t : Token) : Aloof (tellSkipped t) := by
  refine (aloof_tell t).bind fun _ => ?_
  split
  · exact (aloof_placeOf t).bind fun _ => aloof_note _
  · exact .pure _

/-- A directive that is no conditional changes none. -/
theorem aloof_perform (files : FileAccess) (t : Token) : Aloof (perform files t) := by
  refine (aloof_tell t).bind fun _ => ?_
  split
  · exact .pure _
  · exact (aloof_placeOf t).bind fun place c saved => (lasting_beside files c saved).carryOut _ trivial

/-- What becomes of text has nothing to do with conditionals, once it is not skipped. -/
theorem aloof_textAction (t : Token) (window : List Token) : Aloof (textAction t window) := by
  unfold textAction
  split
  · exact .pure _
  · exact .pure _
  · exact (aloof_placeOf t).bind fun place c saved => (lasting_beside {} c saved).handleName window 0 place

end SessionM

/-! ## Trees -/

mutual

/-- A part of a source in which every conditional that is opened is closed. -/
inductive Block where
  | nil
  | text (t : Token) (h : t.role? = some .text) (rest : Block)
  | plain (t : Token) (h : t.role? = some .plain) (rest : Block)
  | conditional (t : Token) (h : t.role? = some .opening) (group : Block) (more : Branches) (rest : Block)

/-- What follows the first group of a conditional: further groups with their directives, perhaps a last one, and the end. -/
inductive Branches where
  | closing (t : Token) (h : t.role? = some .closing)
  | further (t : Token) (h : t.role? = some .further) (group : Block) (more : Branches)
  | last (t : Token) (h : t.role? = some .last) (group : Block) (close : Token) (hclose : close.role? = some .closing)

end

mutual

/-- The tokens of a block. -/
def Block.tokens : Block → List Token
  | .nil => []
  | .text t _ rest => t :: rest.tokens
  | .plain t _ rest => t :: rest.tokens
  | .conditional t _ group more rest => t :: (group.tokens ++ (more.tokens ++ rest.tokens))

/-- The tokens of branches. -/
def Branches.tokens : Branches → List Token
  | .closing t _ => [t]
  | .further t _ group more => t :: (group.tokens ++ more.tokens)
  | .last t _ group close _ => t :: (group.tokens ++ [close])

end

open SessionM

/-- A block that is passed over: only parsing its directives gives anything to tell. -/
def Block.passOver (b : Block) : SessionM Unit :=
  noteAll (b.tokens.flatMap Token.told)

/-- Branches after the chosen group, which are passed over. That they are reached is told; `skipping` says whether a group was passed over
right before. -/
def Branches.passOver : Branches → Bool → SessionM Unit
  | .closing t _, skipping => do
    tell t
    if skipping then note (.endifReached (← placeOf t))
  | .further t _ group more, _ => do
    tellSkipped t
    group.passOver
    more.passOver true
  | .last t _ group close _, _ => do
    tell t
    note (.elseSkipped (← placeOf t))
    group.passOver
    tell close
    note (.endifReached (← placeOf close))

/-- The tokens of a group whose directive holds, with the branches after it passed over; otherwise the group is passed over and the branches
decide. -/
def choose (t : Token) (group : SessionM (List Token)) (past aside : SessionM Unit) (branches : SessionM (List Token)) :
    SessionM (List Token) := do
  if ← holds t then
    let out ← group
    past
    return out
  else
    aside
    branches

mutual

/-- The tokens that a block leaves, with `after` following it. The first `taken` tokens of it are text that a macro invocation before them
has taken up. -/
def Block.process (files : FileAccess) : Block → Nat → List Token → SessionM (List Token)
  | .nil, _, _ => return []
  | .text _ _ rest, taken + 1, after => rest.process files taken after
  | .text t _ rest, 0, after => do
    match ← textAction t (t :: (rest.tokens ++ after)) with
    | .keep => return t :: (← rest.process files 0 after)
    | .replace beyond _ injected => return injected ++ (← rest.process files beyond after)
  | .plain t _ rest, _, after => do
    perform files t
    rest.process files 0 after
  | .conditional t _ group more rest, _, after => do
    let chosen ← choose t (group.process files 0 (more.tokens ++ (rest.tokens ++ after))) (more.passOver false) group.passOver
      (more.process files (rest.tokens ++ after))
    return chosen ++ (← rest.process files 0 after)

/-- The tokens that branches leave, with `after` following them, when no group before them was chosen. -/
def Branches.process (files : FileAccess) : Branches → List Token → SessionM (List Token)
  | .closing t _, _ => do
    tell t
    note (.endifReached (← placeOf t))
    return []
  | .further t _ group more, after =>
    choose t (group.process files 0 (more.tokens ++ after)) (more.passOver false) group.passOver (more.process files after)
  | .last t _ group close _, after => do
    tell t
    note (.elseTaken (← placeOf t))
    let out ← group.process files 0 (close :: after)
    tell close
    return out

end

/-! ## The state of conditionals has no part -/

/-- Passing over a block changes no conditional. -/
theorem Block.aloof_passOver (b : Block) : Aloof b.passOver :=
  aloof_noteAll _

/-- Passing over branches changes no conditional. -/
theorem Branches.aloof_passOver : ∀ (m : Branches) (skipping : Bool), Aloof (m.passOver skipping)
  | .closing t _, skipping => by
    refine (aloof_tell t).bind fun _ => ?_
    cases skipping with
    | true => exact (aloof_placeOf t).bind fun _ => aloof_note _
    | false => exact .pure _
  | .further t _ group more, skipping => by
    exact (aloof_tellSkipped t).bind fun _ => group.aloof_passOver.bind fun _ => more.aloof_passOver true
  | .last t _ group close _, skipping => by
    refine (aloof_tell t).bind fun _ => (aloof_placeOf t).bind fun _ => (aloof_note _).bind fun _ => ?_
    exact group.aloof_passOver.bind fun _ => (aloof_tell close).bind fun _ => (aloof_placeOf close).bind fun _ => aloof_note _

/-- Choosing a group has nothing to do with the state of conditionals when neither the groups nor the branches have. -/
theorem aloof_choose (t : Token) {group branches : SessionM (List Token)} {past aside : SessionM Unit} (hgroup : Aloof group)
    (hpast : Aloof past) (haside : Aloof aside) (hbranches : Aloof branches) : Aloof (choose t group past aside branches) := by
  refine (aloof_holds t).bind fun active => ?_
  cases active with
  | true => exact hgroup.bind fun _ => hpast.bind fun _ => .pure _
  | false => exact haside.bind fun _ => hbranches

mutual

/-- Preprocessing a block comes to the same whatever the state of the conditionals is, and leaves it alone. -/
theorem Block.aloof_process (files : FileAccess) : ∀ (b : Block) (taken : Nat) (after : List Token), Aloof (b.process files taken after)
  | .nil, _, _ => .pure _
  | .text _ _ rest, taken + 1, after => rest.aloof_process files taken after
  | .text t _ rest, 0, after => by
    refine (aloof_textAction t _).bind fun action => ?_
    cases action with
    | keep => exact (rest.aloof_process files 0 after).bind fun _ => .pure _
    | replace beyond skipped injected => exact (rest.aloof_process files beyond after).bind fun _ => .pure _
  | .plain t _ rest, _, after => (aloof_perform files t).bind fun _ => rest.aloof_process files 0 after
  | .conditional t _ group more rest, _, after => by
    refine (aloof_choose t ?_ (more.aloof_passOver false) group.aloof_passOver ?_).bind fun _ => ?_
    · exact group.aloof_process files 0 _
    · exact more.aloof_process files _
    · exact (rest.aloof_process files 0 after).bind fun _ => .pure _

/-- The same for branches. -/
theorem Branches.aloof_process (files : FileAccess) : ∀ (m : Branches) (after : List Token), Aloof (m.process files after)
  | .closing t _, _ =>
    (aloof_tell t).bind fun _ => (aloof_placeOf t).bind fun _ => (aloof_note _).bind fun _ => .pure _
  | .further t _ group more, after =>
    aloof_choose t (group.aloof_process files 0 _) (more.aloof_passOver false) group.aloof_passOver (more.aloof_process files after)
  | .last t _ group close _, after => by
    refine (aloof_tell t).bind fun _ => (aloof_placeOf t).bind fun _ => (aloof_note _).bind fun _ => ?_
    exact (group.aloof_process files 0 _).bind fun _ => (aloof_tell close).bind fun _ => .pure _

end

end Prepass
