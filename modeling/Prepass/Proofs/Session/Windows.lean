import Prepass.Proofs.Macro.Placed
import Prepass.Proofs.Session.Respects

/-!
# Sources gone through by place

A source can be gone through by place: the tokens stay as they are, a place in them moves on, and an invocation is expanded in the whole
source from that place. This is told here from beginning to end, and compared with going through the source window by window, where each
window is what is left of the source. At every place both come to the same action or fault and leave the same session, and so the
source leaves the same tokens (`processByPlace_window`).
-/

namespace Prepass.SessionM

/-- Replaces the macro invocation at a place of a source, if there is one. -/
def replaceByPlace (tokens : List Token) (start : Nat) (place : Place) : SessionM Action := do
  match ← expand (Placed.head tokens start) with
  | none => return .keep
  | some e =>
    let skipped := tokens.extract start (start + e.consumed)
    note (.replaced place (Token.spell skipped) (Token.spell e.tokens))
    return .replace e.beyond skipped e.tokens

/-- What becomes of the token at a place of a source. -/
def processByPlace (files : FileAccess) (tokens : List Token) (start : Nat) : SessionM Action := do
  match tokens[start]? with
  | none => return .keep
  | some t =>
    let s ← current
    let place : Place := { file := s.fileName t, line := t.line }
    match t.kind with
    | .directive =>
      handleDirective files t place
      return .replace 0 [t] []
    | .eof => return .keep
    | .stringLiteral | .numberLiteral => return if s.conditional.skipping then .replace 0 [t] [] else .keep
    | _ =>
      if s.conditional.skipping then return .replace 0 [t] []
      replaceByPlace tokens start place

/-- The tokens that a source leaves from a place on, after those in `out`, which are latest first. -/
def preprocessByPlaceFrom (files : FileAccess) (tokens : List Token) (pos : Nat) (out : List Token) : SessionM (List Token) :=
  if h : pos < tokens.length then do
    match ← processByPlace files tokens pos with
    | .keep => preprocessByPlaceFrom files tokens (pos + 1) (tokens[pos] :: out)
    | .replace beyond _ injected => preprocessByPlaceFrom files tokens (pos + (beyond + 1)) (injected.reverse ++ out)
  else return out.reverse
termination_by tokens.length - pos

/-- The tokens that a source leaves, gone through by place. -/
def preprocessByPlace (files : FileAccess) (tokens : List Token) : SessionM (List Token) :=
  preprocessByPlaceFrom files tokens 0 []

variable (files : FileAccess) (tokens : List Token)

/-- A name is replaced at a place of a source as at the head of the window that begins there, and takes up the same tokens. -/
theorem replaceByPlace_eq (start : Nat) (place : Place) :
    replaceByPlace tokens start place = handleName (tokens.drop start) 0 place := by
  rw [replaceByPlace, handleName, Placed.head_eq_drop, List.drop_zero]
  refine congrArg _ (funext fun found => ?_)
  cases found with
  | none => rfl
  | some e =>
    dsimp only
    rw [List.extract_eq_take_drop, Nat.add_sub_cancel_left]

/-- The token at a place of a source is treated as the first of the window that begins there. -/
theorem processByPlace_eq (start : Nat) : processByPlace files tokens start = process files (tokens.drop start) := by
  have hreplace : replaceByPlace tokens start = handleName (tokens.drop start) 0 := funext (replaceByPlace_eq tokens start)
  unfold processByPlace process processAt
  rewrite [hreplace, List.getElem?_drop, Nat.add_zero]
  cases tokens[start]? with
  | none => rfl
  | some t => rfl

/-- A place of a list of tokens is treated as the head of the window that begins there. -/
theorem processAt_eq (start : Nat) : processAt files tokens start = process files (tokens.drop start) := by
  unfold process processAt
  rw [List.getElem?_drop, Nat.add_zero]
  cases tokens[start]? with
  | none => rfl
  | some t => rfl

/-- From every place on, a source leaves what its windows leave one after another. -/
theorem preprocessByPlaceFrom_eq (pos : Nat) (out : List Token) :
    preprocessByPlaceFrom files tokens pos out = preprocessFrom files out (tokens.drop pos) := by
  fun_induction preprocessByPlaceFrom files tokens pos out with
  | case1 pos out hlt ihKeep ihReplace =>
    rw [processByPlace_eq, List.drop_eq_getElem_cons hlt, preprocessFrom]
    refine congrArg _ (funext fun action => ?_)
    cases action with
    | keep => exact ihKeep
    | replace beyond skipped injected =>
      have hrest : tokens.drop (pos + (beyond + 1)) = (tokens.drop (pos + 1)).drop beyond := by
        rw [List.drop_drop, Nat.add_assoc, Nat.add_comm 1]
      dsimp only
      rw [ihReplace, hrest]
  | case2 pos out hge => rw [List.drop_eq_nil_of_le (Nat.not_lt.mp hge), preprocessFrom]

/-- Going through a source by place agrees with going through it window by window. From every state of a session the token at a place
comes to the same action or fault, and to the same state, as the first token of the window that begins there; the whole source
comes to the same tokens or fault, and to the same state, as its windows one after another. -/
theorem processByPlace_window (s : Logged Session) :
    (∀ start, processByPlace files tokens start s = processByPlace files (tokens.drop start) 0 s ∧
      processByPlace files tokens start s = process files (tokens.drop start) s ∧
      processAt files tokens start s = process files (tokens.drop start) s) ∧
    preprocessByPlace files tokens s = preprocess files tokens s := by
  refine ⟨fun start => ⟨?_, ?_, ?_⟩, ?_⟩
  · rw [processByPlace_eq, processByPlace_eq, List.drop_zero]
  · rw [processByPlace_eq]
  · rw [processAt_eq]
  · rw [preprocessByPlace, preprocessByPlaceFrom_eq]
    rfl

end Prepass.SessionM
