import Prepass.Macro.Expansion
import Prepass.Proofs.Token.Content

/-!
# Places have no part in expansion

Pasting tokens, reading argument lists and taking tokens off a stack look at what tokens say, and not at where they stand. Each of these
is stated for two lists of tokens, or two stacks, that say the same.
-/

namespace Prepass

/-- Tokens that say the same, one by one. -/
def SaySame (ts ts' : List Token) : Prop :=
  ts.map Token.content = ts'.map Token.content

namespace SaySame

variable {t t' : Token} {ts ts' us us' : List Token}

theorem refl (ts : List Token) : SaySame ts ts :=
  rfl

/-- What tokens say, as a list. -/
theorem map_eq (h : SaySame ts ts') : ts.map Token.content = ts'.map Token.content :=
  h

/-- Tokens say the same when their heads and what follows them do. -/
theorem cons (h : t.content = t'.content) (hs : SaySame ts ts') : SaySame (t :: ts) (t' :: ts') := by
  rw [SaySame, List.map_cons, List.map_cons, h, hs]

/-- Tokens that say the same still do with more tokens after them that say the same. -/
theorem append (h : SaySame ts ts') (hu : SaySame us us') : SaySame (ts ++ us) (ts' ++ us') := by
  rw [SaySame, List.map_append, List.map_append, h, hu]

/-- Tokens that say the same do so in either order. -/
theorem reverse (h : SaySame ts ts') : SaySame ts.reverse ts'.reverse := by
  rw [SaySame, List.map_reverse, List.map_reverse, h]

/-- The first of some tokens say the same. -/
theorem take (h : SaySame ts ts') (n : Nat) : SaySame (ts.take n) (ts'.take n) := by
  rw [SaySame, List.map_take, List.map_take, h]

/-- So do those after the first. -/
theorem drop (h : SaySame ts ts') (n : Nat) : SaySame (ts.drop n) (ts'.drop n) := by
  rw [SaySame, List.map_drop, List.map_drop, h]

/-- Tokens that say the same are of the same number. -/
theorem length_eq (h : SaySame ts ts') : ts.length = ts'.length := by
  simpa using congrArg List.length h

/-- Tokens that say the same are none, or begin with two that say the same. -/
theorem cases (h : SaySame ts ts') :
    (ts = [] ∧ ts' = []) ∨ ∃ t us t' us', ts = t :: us ∧ ts' = t' :: us' ∧ t.content = t'.content ∧ SaySame us us' := by
  cases ts with
  | nil =>
    cases ts' with
    | nil => exact .inl ⟨rfl, rfl⟩
    | cons _ _ => cases h
  | cons t us =>
    cases ts' with
    | nil => cases h
    | cons t' us' =>
      obtain ⟨hhead, htail⟩ := List.cons.inj h
      exact .inr ⟨t, us, t', us', rfl, rfl, hhead, htail⟩

/-- There are none on one side when there are none on the other. -/
theorem eq_nil_iff (h : SaySame ts ts') : ts = [] ↔ ts' = [] := by
  rw [← List.length_eq_zero_iff, h.length_eq, List.length_eq_zero_iff]

end SaySame

/-! ## Pasting -/

namespace Paste

/-- Gluing a token to the latest one looks at values and kinds only. -/
theorem content_glueLatest {latest latest' : List Token} {t t' : Token} (hlatest : SaySame latest latest')
    (ht : t.content = t'.content) : SaySame (glueLatest latest t) (glueLatest latest' t') := by
  rcases hlatest.cases with ⟨rfl, rfl⟩ | ⟨left, earlier, left', earlier', rfl, rfl, hleft, hearlier⟩
  · exact .cons ht (.refl [])
  · refine .cons ?_ hearlier
    simp only [glue, Token.content, Token.value_of_content hleft, Token.kind_of_content hleft, Token.value_of_content ht]

/-- Pasting looks at values and kinds only. -/
theorem content_pasteFrom {latest latest' ts ts' : List Token} (waiting : Bool) (hlatest : SaySame latest latest')
    (h : SaySame ts ts') : SaySame (pasteFrom latest waiting ts) (pasteFrom latest' waiting ts') := by
  induction ts generalizing ts' latest latest' waiting with
  | nil =>
    rw [h.eq_nil_iff.mp rfl]
    exact hlatest.reverse
  | cons t rest ih =>
    rcases h.cases with ⟨hnil, -⟩ | ⟨_, _, t', rest', heq, rfl, ht, hrest⟩
    · cases hnil
    · cases heq
      have hoperator : isOperator t' = isOperator t := by rw [isOperator, isOperator, Token.value_of_content ht]
      unfold pasteFrom
      rw [hoperator]
      split
      · exact ih true hlatest hrest
      · split
        · exact ih false (content_glueLatest hlatest ht) hrest
        · exact ih false (.cons ht hlatest) hrest

/-- Tokens that say the same are pasted into tokens that say the same. -/
theorem content_paste {ts ts' : List Token} (h : SaySame ts ts') : SaySame (paste ts) (paste ts') :=
  content_pasteFrom false (.refl []) h

end Paste

/-- Tokens that say the same are lexed again as tokens that say the same. -/
theorem Expand.content_relex {ts ts' : List Token} (h : SaySame ts ts') (place place' : Token) :
    SaySame (relex ts place) (relex ts' place') := by
  rw [relex, relex, Token.spell_congr h]
  exact (Token.content_ofText ..).trans (Token.content_ofText ..).symm

/-! ## Arguments -/

namespace Arguments

/-- Argument lists that take up the same number of tokens and say the same. -/
inductive Found.Same : Found → Found → Prop
  | absent : Same .absent .absent
  | unclosed : Same .unclosed .unclosed
  | list (consumed : Nat) {arguments arguments' : List Token} (h : SaySame arguments arguments') :
    Same (.list consumed arguments) (.list consumed arguments')

/-- An argument says what its tokens say. -/
theorem content_ofGroup {group group' : List Token} (h : SaySame group group') : SaySame (ofGroup group) (ofGroup group') := by
  rcases h.cases with ⟨rfl, rfl⟩ | ⟨t, us, t', us', rfl, rfl, -, -⟩
  · exact .refl []
  · refine .cons ?_ (.refl [])
    simp only [Token.content, Token.spell_congr h]

/-- Reading an argument list looks at values and kinds only. -/
theorem readFrom_same {arguments arguments' group group' ts ts' : List Token} (consumed depth : Nat)
    (harguments : SaySame arguments arguments') (hgroup : SaySame group group') (h : SaySame ts ts') :
    (readFrom (·.kind = .eof) consumed arguments group depth ts).Same
      (readFrom (·.kind = .eof) consumed arguments' group' depth ts') := by
  induction ts generalizing ts' consumed depth arguments arguments' group group' with
  | nil =>
    rw [h.eq_nil_iff.mp rfl]
    exact .unclosed
  | cons t rest ih =>
    rcases h.cases with ⟨hnil, -⟩ | ⟨_, _, t', rest', heq, rfl, ht, hrest⟩
    · cases hnil
    · cases heq
      have hclosed : SaySame (ofGroup group.reverse ++ arguments) (ofGroup group'.reverse ++ arguments') :=
        (content_ofGroup hgroup.reverse).append harguments
      unfold readFrom
      dsimp only
      rw [Token.kind_of_content ht, Token.value_of_content ht]
      split
      · exact .unclosed
      · split
        · exact .list _ hclosed.reverse
        · split
          · exact ih _ _ hclosed (.refl []) hrest
          · exact ih _ _ harguments (.cons ht hgroup) hrest

/-- Argument lists are found alike at the head of tokens that say the same. -/
theorem read_same {ts ts' : List Token} (h : SaySame ts ts') :
    (read (·.kind = .eof) ts).Same (read (·.kind = .eof) ts') := by
  rcases h.cases with ⟨rfl, rfl⟩ | ⟨t, us, t', us', rfl, rfl, ht, hrest⟩
  · exact .absent
  · simp only [read, Token.kind_of_content ht, Token.value_of_content ht]
    split
    · exact readFrom_same _ _ (.refl []) (.refl []) hrest
    · exact .absent

/-- The arguments of a variadic parameter are folded into one that says the same. -/
theorem content_fold {arguments arguments' : List Token} (params : Nat) (h : SaySame arguments arguments') :
    SaySame (fold params arguments) (fold params arguments') := by
  unfold fold
  rw [h.length_eq]
  split
  · exact h
  · rcases (h.drop (params - 1)).cases with ⟨hnil, hnil'⟩ | ⟨t, us, t', us', heq, heq', ht, hrest⟩
    · rw [hnil, hnil']
      exact h
    · rw [heq, heq']
      refine (h.take _).append (.cons ?_ (.refl []))
      simp only [Token.content, Token.spell_congr (SaySame.cons ht hrest), Token.kind_of_content ht]

end Arguments

/-! ## Stacks -/

/-- The name of a frame and what the tokens still to be read in it say. -/
def Frame.content (f : Frame) : String × List (String × Token.Kind) :=
  (f.name, f.unread.map Token.content)

namespace Stack

/-- Stacks of the same frames that say the same, above inputs that say the same. -/
structure Same (stack stack' : Stack) : Prop where
  frames : stack.frames.map Frame.content = stack'.frames.map Frame.content
  input : SaySame stack.input stack'.input
  taken : stack.taken = stack'.taken

/-- Frames that say the same are none, or begin with two of one name that say the same. -/
theorem cases_frames {frames frames' : List Frame} (h : frames.map Frame.content = frames'.map Frame.content) :
    (frames = [] ∧ frames' = []) ∨ ∃ name unread below unread' below', frames = { name, unread } :: below ∧
      frames' = { name, unread := unread' } :: below' ∧ SaySame unread unread' ∧
      below.map Frame.content = below'.map Frame.content := by
  cases frames with
  | nil =>
    cases frames' with
    | nil => exact .inl ⟨rfl, rfl⟩
    | cons _ _ => cases h
  | cons f below =>
    cases frames' with
    | nil => cases h
    | cons f' below' =>
      obtain ⟨name, unread⟩ := f
      obtain ⟨name', unread'⟩ := f'
      obtain ⟨hframe, hbelow⟩ := List.cons.inj h
      obtain ⟨rfl, hunread⟩ := Prod.mk.inj hframe
      exact .inr ⟨name, unread, below, unread', below', rfl, rfl, hunread, hbelow⟩

/-- Crossing frames looks at how many tokens they have, and comes to frames of the same names. -/
theorem content_cross {frames frames' : List Frame} (h : frames.map Frame.content = frames'.map Frame.content) (count : Nat) :
    (cross frames count).1.map Frame.content = (cross frames' count).1.map Frame.content ∧
      (cross frames count).2 = (cross frames' count).2 := by
  induction frames generalizing frames' count with
  | nil =>
    rcases cases_frames h with ⟨-, rfl⟩ | ⟨_, _, _, _, _, heq, -, -, -⟩
    · exact ⟨rfl, rfl⟩
    · cases heq
  | cons f below ih =>
    rcases cases_frames h with ⟨hnil, -⟩ | ⟨name, unread, _, unread', below', heq, rfl, hunread, hbelow⟩
    · cases hnil
    · cases heq
      obtain ⟨hleft, hmore⟩ := ih hbelow (count - unread.length)
      simp only [cross, ← hunread.length_eq]
      by_cases hle : count ≤ unread.length
      · simp only [hle, if_true, List.map_cons, Frame.content, hbelow, (hunread.drop count).map_eq, and_true]
      · simp only [hle, if_false, hmore, and_true]
        exact hleft

namespace Same

variable {stack stack' : Stack}

/-- The frames of the stacks have the same names. -/
theorem names_eq (h : stack.Same stack') : stack.frames.map Frame.name = stack'.frames.map Frame.name := by
  have := congrArg (List.map Prod.fst) h.frames
  simpa [Function.comp_def, Frame.content] using this

/-- The stacks have as many frames. -/
theorem length_eq (h : stack.Same stack') : stack.frames.length = stack'.frames.length := by
  simpa using congrArg List.length h.names_eq

/-- What can be read ahead says the same. -/
theorem lookahead (h : stack.Same stack') : SaySame stack.lookahead stack'.lookahead := by
  have hframes (frames : List Frame) : (frames.flatMap Frame.unread).map Token.content = (frames.map Frame.content).flatMap Prod.snd := by
    simp [List.map_flatMap, List.flatMap_map, Frame.content]
  refine SaySame.append ?_ h.input
  rw [SaySame, hframes, hframes, h.frames]

/-- As many frames have tokens left to read. -/
theorem openFrames_eq (h : stack.Same stack') : stack.openFrames = stack'.openFrames := by
  have hopen (frames : List Frame) :
      (frames.filter (·.unread ≠ [])).length = ((frames.map Frame.content).filter (·.2 ≠ [])).length := by
    simp [List.filter_map, Function.comp_def, Frame.content]
  rw [openFrames, openFrames, hopen, hopen, h.frames]

/-- Stacks still say the same with one more frame on each that says the same. -/
theorem push (h : stack.Same stack') (name : String) {tokens tokens' : List Token} (htokens : SaySame tokens tokens') :
    (stack.push name tokens).Same (stack'.push name tokens') := by
  refine ⟨?_, h.input, h.taken⟩
  simp only [Stack.push, List.map_cons, Frame.content, h.frames, htokens.map_eq]

/-- Taking tokens off stacks that say the same leaves stacks that say the same. -/
theorem consume (h : stack.Same stack') (count : Nat) :
    (stack.consume count).stack.Same (stack'.consume count).stack ∧
      (stack.consume count).crossed = (stack'.consume count).crossed ∧
      (stack.consume count).missing = (stack'.consume count).missing := by
  obtain ⟨hleft, hmore⟩ := content_cross h.frames count
  simp only [Stack.consume, hmore, (h.input.take _).length_eq, and_true]
  exact ⟨hleft, h.input.drop _, by rw [h.taken]⟩

end Same

end Stack

end Prepass
