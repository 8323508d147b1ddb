import Prepass.Macro.Arguments
import Prepass.Macro.Stack

/-!
# Taking arguments off a stack

An argument list that is found ahead lies within the tokens ahead and ends before the end mark (`Arguments.within_of_read`). Taking its
tokens off the stack crosses the topmost frames, in order, and leaves the tokens ahead without the ones taken
(`Stack.names_consume`, `Stack.consume_input`): none is missing, and none of those that come from the input is an end mark.
-/

namespace Prepass

/-! ## Argument lists -/

namespace Arguments

/-- Reading on takes up some tokens, all of them there and none of them a stop. -/
theorem within_of_readFrom {stop : Token → Bool} {tokens : List Token} {consumed depth count : Nat}
    {arguments group found : List Token} (h : readFrom stop consumed arguments group depth tokens = .list count found) :
    ∃ more, count = consumed + more ∧ more ≤ tokens.length ∧ ∀ t ∈ tokens.take more, stop t = false := by
  fun_induction readFrom stop consumed arguments group depth tokens with
  | case1 => nomatch h
  | case2 => nomatch h
  | case3 consumed arguments group depth t rest hstop =>
    cases h
    exact ⟨1, rfl, by simp, by simpa using hstop⟩
  | case4 consumed arguments group depth t rest hstop _ _ ih =>
    obtain ⟨more, hcount, hle, hmore⟩ := ih h
    refine ⟨more + 1, by omega, by simpa using hle, ?_⟩
    simpa [hstop] using hmore
  | case5 consumed arguments group depth t rest hstop _ _ _ ih =>
    obtain ⟨more, hcount, hle, hmore⟩ := ih h
    refine ⟨more + 1, by omega, by simpa using hle, ?_⟩
    simpa [hstop] using hmore

/-- An argument list takes up one token at least, all of them there and none of them a stop. -/
theorem within_of_read {stop : Token → Bool} {tokens : List Token} {count : Nat} {found : List Token}
    (h : read stop tokens = .list count found) :
    0 < count ∧ count ≤ tokens.length ∧ ∀ t ∈ tokens.take count, stop t = false := by
  unfold read at h
  split at h
  · nomatch h
  · rename_i t rest
    split at h
    · rename_i hopen
      simp only [Bool.and_eq_true, Bool.not_eq_true', decide_eq_true_eq] at hopen
      obtain ⟨more, rfl, hle, hmore⟩ := within_of_readFrom h
      rw [Nat.add_comm 1 more]
      refine ⟨by omega, by simpa using hle, ?_⟩
      simpa [hopen.1] using hmore
    · nomatch h

end Arguments

/-! ## Stacks -/

namespace Stack

/-- The names of the frames, innermost first. -/
def names (s : Stack) : List String :=
  s.frames.map Frame.name

/-- The frames crossed are the topmost ones, in order. -/
theorem names_cross (frames : List Frame) (count : Nat) :
    frames.map Frame.name = (cross frames count).2.1 ++ (cross frames count).1.map Frame.name := by
  induction frames generalizing count with
  | nil => simp [cross]
  | cons f below ih =>
    by_cases hle : count ≤ f.unread.length
    · simp [cross, hle]
    · simp only [cross, hle, if_false, List.map_cons, List.cons_append]
      rw [← ih]

/-- What is still to be taken after the frames is what they do not hold; the tokens ahead up to there are those of the frames, and
those of the input after them. -/
theorem cross_more (frames : List Frame) (count : Nat) :
    (cross frames count).2.2 = count - (frames.flatMap Frame.unread).length := by
  induction frames generalizing count with
  | nil => simp [cross]
  | cons f below ih =>
    by_cases hle : count ≤ f.unread.length
    · simp only [cross, hle, if_true, List.flatMap_cons, List.length_append]
      omega
    · simp only [cross, hle, if_false, List.flatMap_cons, List.length_append, ih]
      omega

/-- The names of the frames of a stack are those crossed, and then those left. -/
theorem names_consume (s : Stack) (count : Nat) : s.names = (s.consume count).crossed ++ (s.consume count).stack.names :=
  names_cross s.frames count

/-- The tokens that are taken from the input are among those ahead, and they are there as long as enough tokens are ahead. -/
theorem consume_input (s : Stack) (count : Nat) :
    ∃ more, (s.consume count).stack.input = s.input.drop more ∧ (s.consume count).stack.taken = s.taken + more ∧
      (∀ t ∈ s.input.take more, t ∈ s.lookahead.take count) ∧
      (count ≤ s.lookahead.length → more ≤ s.input.length ∧ (s.consume count).missing = 0) := by
  refine ⟨(cross s.frames count).2.2, rfl, rfl, ?_, ?_⟩
  · intro t ht
    rw [cross_more] at ht
    rw [lookahead, List.take_append]
    exact List.mem_append_right _ ht
  · intro hle
    simp only [lookahead, List.length_append] at hle
    have hmore : (cross s.frames count).2.2 ≤ s.input.length := by
      rw [cross_more]
      omega
    refine ⟨hmore, ?_⟩
    show (cross s.frames count).2.2 - (s.input.take (cross s.frames count).2.2).length = 0
    rw [List.length_take, Nat.min_eq_left hmore, Nat.sub_self]

end Stack

end Prepass
