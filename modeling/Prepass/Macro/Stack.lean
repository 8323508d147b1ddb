import Prepass.Rank
import Prepass.Token

/-!
# Replacements being read

The replacement of a macro is read again for further macros. The replacements that are being read are frames of a stack, the
innermost on top, above the input that follows the first invocation. Arguments may be taken from frames further down and
from the input; a frame that is crossed on the way is done with. A frame whose tokens are all read stays until what is
above it is done with.
-/

namespace Prepass

/-- The replacement of a macro and what of it is still to be read. -/
structure Frame where
  name : String
  unread : List Token
  deriving DecidableEq, Repr

/-- Frames, innermost first, above the input that is still to be read, of which `taken` tokens have been taken. -/
structure Stack where
  frames : List Frame := []
  input : List Token
  taken : Nat := 0
  deriving DecidableEq, Repr

namespace Stack

/-- The tokens still to be read, innermost frame first. -/
def lookahead (s : Stack) : List Token :=
  s.frames.flatMap Frame.unread ++ s.input

/-- The stack with one more frame. -/
def push (s : Stack) (name : String) (tokens : List Token) : Stack :=
  { s with frames := { name, unread := tokens } :: s.frames }

/-- The number of frames with tokens still to be read. -/
def openFrames (s : Stack) : Nat :=
  (s.frames.filter (·.unread ≠ [])).length

/-- Takes tokens from frames: the frames left, the names of those crossed, and how many tokens are still to be taken. -/
def cross : List Frame → Nat → List Frame × List String × Nat
  | [], count => ([], [], count)
  | f :: below, count =>
    if count ≤ f.unread.length then ({ f with unread := f.unread.drop count } :: below, [], 0)
    else
      let (left, names, more) := cross below (count - f.unread.length)
      (left, f.name :: names, more)

/-- What taking tokens from a stack leaves. -/
structure Consumed where
  stack : Stack
  crossed : List String
  missing : Nat

/-- Takes tokens from the frames and then from the input. -/
def consume (s : Stack) (count : Nat) : Consumed :=
  let (frames, crossed, more) := cross s.frames count
  { stack := { frames, input := s.input.drop more, taken := s.taken + more }, crossed, missing := more - (s.input.take more).length }

/-- The rank of a stack: how much of the input and of each frame is still to be read, from the bottom up. -/
def rank (s : Stack) : List Nat :=
  s.input.length :: (s.frames.map (·.unread.length)).reverse

/-- The rank of a stack of at most `bound` frames. -/
def rankWithin (bound : Nat) (s : Stack) : Rank (bound + 1) :=
  ⟨s.rank.take (bound + 1), by simp only [List.length_take]; omega⟩

theorem length_rank (s : Stack) : s.rank.length = s.frames.length + 1 := by
  simp [rank]

theorem rank_push (s : Stack) (name : String) (tokens : List Token) :
    (s.push name tokens).rank = s.rank ++ [tokens.length] := by
  simp [rank, push]

/-- A stack with one more frame ranks below one with the same frame and more to read in it. -/
theorem rank_lower_top (input : List Token) (taken taken' : Nat) (below : List Frame) (f g : Frame)
    (h : f.unread.length < g.unread.length) (more : List Nat) :
    LexBelow (({ frames := f :: below, input, taken } : Stack).rank ++ more)
      ({ frames := g :: below, input, taken := taken' } : Stack).rank := by
  simp only [rank, List.map_cons, List.reverse_cons, List.cons_append, List.append_assoc]
  exact .cons (LexBelow.append_left _ (.rel h))

/-- A stack ranks below itself with one more frame. -/
theorem rank_lower_pop (input : List Token) (taken taken' : Nat) (below : List Frame) (f : Frame) :
    LexBelow ({ frames := below, input, taken } : Stack).rank ({ frames := f :: below, input, taken := taken' } : Stack).rank := by
  have h : LexBelow ([] : List Nat) [f.unread.length] := .nil
  have := LexBelow.append_left ({ frames := below, input, taken } : Stack).rank h
  simpa [rank] using this

/-- Taking tokens off a stack lowers its rank so far that frames may be put on top. -/
theorem rank_consume_lower (frames : List Frame) (input : List Token) (taken count : Nat) (hpos : 0 < count)
    (hmiss : (({ frames, input, taken } : Stack).consume count).missing = 0) (more : List Nat) :
    LexBelow ((({ frames, input, taken } : Stack).consume count).stack.rank ++ more)
      ({ frames, input, taken } : Stack).rank := by
  induction frames generalizing count with
  | nil =>
    simp only [consume, cross, List.length_take] at hmiss ⊢
    refine .rel ?_
    simp only [List.length_drop]
    omega
  | cons f below ih =>
    by_cases hle : count ≤ f.unread.length
    · have : (({ frames := f :: below, input, taken } : Stack).consume count).stack =
          { frames := { f with unread := f.unread.drop count } :: below, input, taken } := by
        simp [consume, cross, hle]
      rw [this]
      refine rank_lower_top _ _ _ _ _ _ ?_ _
      simp only [List.length_drop]
      omega
    · have hstack : (({ frames := f :: below, input, taken } : Stack).consume count).stack =
          (({ frames := below, input, taken } : Stack).consume (count - f.unread.length)).stack := by
        simp [consume, cross, hle]
      have hmissing : (({ frames := f :: below, input, taken } : Stack).consume count).missing =
          (({ frames := below, input, taken } : Stack).consume (count - f.unread.length)).missing := by
        simp [consume, cross, hle]
      rw [hstack]
      have hbelow := ih (count - f.unread.length) (by omega) (hmissing ▸ hmiss)
      have := LexBelow.append_right hbelow [f.unread.length]
      simpa [rank] using this

/-- Below the bound on frames, the rank may be cut off at the bound. -/
theorem rankWithin_lower {bound : Nat} {s t : Stack} (hbound : t.frames.length ≤ bound) (h : LexBelow s.rank t.rank) :
    (s.rankWithin bound).Below (t.rankWithin bound) := by
  have ht : t.rank.take (bound + 1) = t.rank := List.take_of_length_le (by rw [length_rank]; omega)
  show LexBelow (s.rank.take (bound + 1)) (t.rank.take (bound + 1))
  rw [ht]
  have hlen : t.rank.length ≤ bound + 1 := by rw [length_rank]; omega
  generalize bound + 1 = k at hlen
  generalize s.rank = a at h
  generalize t.rank = b at h hlen
  clear ht
  induction h generalizing k with
  | nil => simp only [List.take_nil]; exact .nil
  | rel hlt =>
    cases k with
    | zero => simp at hlen
    | succ k => exact .rel hlt
  | cons _ ih =>
    cases k with
    | zero => simp at hlen
    | succ k => exact .cons (ih k (Nat.le_of_succ_le_succ hlen))

end Stack

end Prepass
