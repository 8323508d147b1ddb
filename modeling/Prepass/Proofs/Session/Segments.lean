import Mathlib
import Prepass.Proofs.Conditional.Refinement
import Prepass.Proofs.Macro.Lexed
import Prepass.Proofs.Token.Stream

/-!
# Steps and the tokens they take up

Preprocessing goes through a stream in steps (`steps`). What a step can do is said once (`Takes`, `takes_of_process`): it keeps the token
it is at, strips it, or puts an expansion in the place of an invocation, which ends before the end mark. A run is made of such
steps (`worked_of_ok`), and from this follows what it does to a stream (`preprocess_partitions`): the steps take up one piece of it after
another and leave nothing out, the end mark stays the last token and the only one of its kind, and line numbers still never go back.
-/

namespace Prepass

open SessionM

/-! ## Single steps -/

/-- The number of tokens beyond the first that are taken up. -/
def Action.beyond : Action → Nat
  | .keep => 0
  | .replace beyond _ _ => beyond

/-- The number of tokens that are taken up. -/
def Action.consumed (a : Action) : Nat :=
  a.beyond + 1

/-- A step of preprocessing: the token it is at, the tokens after it, and what is done. -/
structure Step where
  head : Token
  rest : List Token
  action : Action

namespace Step

/-- The tokens that a step takes up. -/
def segment (p : Step) : List Token :=
  (p.head :: p.rest).take p.action.consumed

/-- The tokens that a step leaves. -/
def left (p : Step) : List Token :=
  match p.action with
  | .keep => [p.head]
  | .replace _ _ injected => injected

/-- A step takes up its token and the further ones that its action counts. -/
@[simp]
theorem segment_mk (t : Token) (rest : List Token) (action : Action) :
    segment ⟨t, rest, action⟩ = t :: rest.take action.beyond := rfl

end Step

/-- What can become of the first of some tokens. -/
inductive Takes (t : Token) (rest : List Token) : Action → Prop
  | keep (hkind : t.kind ≠ .directive) : Takes t rest .keep
  | strip (hkind : t.kind ≠ .eof) : Takes t rest (.replace 0 [t] [])
  | expand {beyond : Nat} {found : List Token} (hkind : t.kind ≠ .eof) (hle : beyond ≤ rest.length)
    (hend : ∀ u ∈ rest.take beyond, u.kind ≠ .eof) (hlexed : ∀ u ∈ found, u.Lexed) :
    Takes t rest (.replace beyond (t :: rest.take beyond) (Token.relocate found t))

section

variable {files : FileAccess} {t : Token} {rest : List Token} {action : Action} {s s' : Logged Session}

/-- A name is kept, or its invocation is replaced. -/
theorem takes_of_handleName (hdirective : t.kind ≠ .directive) (heof : t.kind ≠ .eof) {place : Place}
    (h : handleName (t :: rest) 0 place s = .ok action s') : Takes t rest action := by
  rcases handleName_cases h with rfl | ⟨ex, e, hhead, rfl⟩
  · exact .keep hdirective
  · -- both statements open the window at its first token
    obtain ⟨name, input, found, hdrop, htokens, hlexed⟩ := Expand.lexed_of_headWithin hhead
    obtain ⟨name', input', hdrop', hle, hend⟩ := Expand.beyond_of_headWithin (Expand.restores_argument_or_deep _) hhead
    rw [List.drop_zero, List.cons.injEq] at hdrop hdrop'
    obtain ⟨rfl, rfl⟩ := hdrop
    obtain ⟨-, rfl⟩ := hdrop'
    rw [htokens]
    exact .expand heof hle hend hlexed

/-- A step takes up tokens in one of three ways. -/
theorem takes_of_process (h : process files (t :: rest) s = .ok action s') : Takes t rest action := by
  by_cases hdirective : t.kind = .directive
  · rw [process_directive hdirective] at h
    obtain ⟨_, s₁, -, h⟩ := exists_of_bind_ok h
    cases h
    exact .strip (by simp [hdirective])
  · rcases process_other_cases hdirective rest s with hkeep | ⟨heof, hdrop⟩ | ⟨heof, hname⟩
    · rw [hkeep] at h
      cases h
      exact .keep hdirective
    · rw [hdrop] at h
      cases h
      exact .strip heof
    · rw [hname] at h
      exact takes_of_handleName hdirective heof h

/-- The tokens that are taken up are there. -/
theorem Takes.beyond_le (h : Takes t rest action) : action.beyond ≤ rest.length := by
  cases h with
  | keep | strip => exact Nat.zero_le _
  | expand _ hle _ _ => exact hle

/-- What is told of the tokens that are replaced is which they are. -/
theorem Takes.skipped_eq {beyond : Nat} {skipped injected : List Token} (h : Takes t rest (.replace beyond skipped injected)) :
    skipped = t :: rest.take beyond := by
  cases h with
  | strip => rw [List.take_zero]
  | expand => rfl

/-- The end mark is kept. -/
theorem Takes.keep_of_eof (h : Takes t rest action) (heof : t.kind = .eof) : action = .keep := by
  cases h with
  | keep => rfl
  | strip hkind => exact absurd heof hkind
  | expand hkind _ _ _ => exact absurd heof hkind

/-- The end mark is not among the tokens that are taken up after another. -/
theorem Takes.kind_of_mem_take (h : Takes t rest action) : ∀ u ∈ rest.take action.beyond, u.kind ≠ .eof := by
  cases h with
  | keep | strip => simp [Action.beyond]
  | expand _ _ hend _ => exact hend

end

/-- Tokens laid out at a place are generated and have its line and file. -/
theorem Token.place_layFrom (place : Token) (column : Int) (ts : List Token) :
    ∀ u ∈ layFrom place column ts, u.generated = true ∧ u.line = place.line ∧ u.uri = place.uri := by
  induction ts generalizing column with
  | nil => simp [layFrom]
  | cons t rest ih => exact List.forall_mem_cons.mpr ⟨⟨rfl, rfl, rfl⟩, ih _⟩

/-- What a step leaves is the token it is at, or generated tokens at the place of that token. -/
theorem Takes.mem_left {t : Token} {rest : List Token} {action : Action} (h : Takes t rest action) :
    ∀ u ∈ Step.left ⟨t, rest, action⟩,
      (action = .keep ∧ u = t) ∨ (u.generated = true ∧ u.line = t.line ∧ u.uri = t.uri) := by
  intro u hu
  cases h with
  | keep => exact .inl ⟨rfl, List.mem_singleton.mp hu⟩
  | strip => nomatch hu
  | expand => exact .inr (Token.place_layFrom _ _ _ u hu)

/-- What a step leaves stands on the line of its token. -/
theorem Takes.line_of_mem_left {t u : Token} {rest : List Token} {action : Action} (h : Takes t rest action)
    (hu : u ∈ Step.left ⟨t, rest, action⟩) : u.line = t.line := by
  rcases h.mem_left u hu with ⟨-, rfl⟩ | ⟨-, hline, -⟩
  · rfl
  · exact hline

/-- A step at a token that is not the end mark leaves neither a directive nor the end mark. -/
theorem Takes.kind_of_mem_left {t u : Token} {rest : List Token} {action : Action} (h : Takes t rest action)
    (heof : t.kind ≠ .eof) (hu : u ∈ Step.left ⟨t, rest, action⟩) : u.kind ≠ .eof ∧ u.kind ≠ .directive := by
  cases h with
  | keep hkind =>
    rw [List.mem_singleton.mp hu]
    exact ⟨heof, hkind⟩
  | strip => nomatch hu
  | expand _ _ _ hlexed => exact (Token.lexed_relocate hlexed t u hu).kind_ne

/-! ## All steps -/

/-- The steps of preprocessing, up to the end of the tokens or to a fault. -/
def steps (files : FileAccess) (tokens : List Token) (s : Logged Session) : List Step :=
  match tokens with
  | [] => []
  | t :: rest =>
    match process files (t :: rest) s with
    | .ok action s' => ⟨t, rest, action⟩ :: steps files (rest.drop action.beyond) s'
    | .error _ _ => []
termination_by tokens.length
decreasing_by
  simp only [List.length_drop, List.length_cons]
  omega

/-- Steps that go through some tokens to their end and leave others. -/
inductive Worked : List Step → List Token → List Token → Prop
  | nil : Worked [] [] []
  | cons {t : Token} {rest : List Token} {action : Action} {more : List Step} {out : List Token} (h : Takes t rest action)
    (hmore : Worked more (rest.drop action.beyond) out) :
    Worked (⟨t, rest, action⟩ :: more) (t :: rest) (Step.left ⟨t, rest, action⟩ ++ out)

/-- What is left of some tokens is what a step leaves of them, and then what is left of the tokens after it. -/
theorem preprocess_step {files : FileAccess} {t : Token} {rest : List Token} {action : Action} {s s' : Logged Session}
    (h : process files (t :: rest) s = .ok action s') :
    preprocess files (t :: rest) s =
      mapResult (Step.left ⟨t, rest, action⟩ ++ ·) (preprocess files (rest.drop action.beyond) s') := by
  cases action with
  | keep => exact (Reaches.of_keep h).preprocess_eq
  | replace beyond skipped injected => exact (Reaches.of_replace h).preprocess_eq

/-- A run that gives tokens is made of its steps. -/
theorem worked_of_ok {files : FileAccess} {tokens out : List Token} {s s' : Logged Session}
    (h : preprocess files tokens s = .ok out s') : Worked (steps files tokens s) tokens out := by
  fun_induction steps files tokens s generalizing out with
  | case1 s =>
    rw [preprocess, preprocessFrom] at h
    cases h
    exact .nil
  | case2 s t rest action s₁ hstep ih =>
    rw [preprocess_step hstep] at h
    cases hmore : preprocess files (rest.drop action.beyond) s₁ with
    | error e s₂ =>
      rw [hmore] at h
      cases h
    | ok more s₂ =>
      rw [hmore] at h
      cases h
      exact .cons (takes_of_process hstep) (ih hmore)
  | case3 s t rest e s₁ hstep =>
    rw [preprocess, preprocessFrom_error hstep] at h
    cases h

namespace Worked

variable {ps : List Step} {tokens out : List Token}

/-- The segments of the steps are the tokens, in order. -/
theorem flatMap_segment (h : Worked ps tokens out) : ps.flatMap Step.segment = tokens := by
  induction h with
  | nil => rfl
  | @cons t rest action _ _ _ _ ih =>
    rw [List.flatMap_cons, ih, Step.segment_mk, List.cons_append, List.take_append_drop]

/-- What the steps leave is the output, in order. -/
theorem flatMap_left (h : Worked ps tokens out) : ps.flatMap Step.left = out := by
  induction h with
  | nil => rfl
  | cons _ _ ih => rw [List.flatMap_cons, ih]

/-- Each step of a run takes up tokens as a single step does. -/
theorem takes (h : Worked ps tokens out) : ∀ p ∈ ps, Takes p.head p.rest p.action := by
  induction h with
  | nil => simp
  | cons h _ ih => exact List.forall_mem_cons.mpr ⟨h, ih⟩

/-- No line number comes up that no token of the source has. -/
theorem exists_line (h : Worked ps tokens out) : ∀ u ∈ out, ∃ t ∈ tokens, u.line = t.line := by
  induction h with
  | nil => simp
  | @cons t rest action _ _ htakes _ ih =>
    intro u hu
    rcases List.mem_append.mp hu with hu | hu
    · exact ⟨t, by simp, htakes.line_of_mem_left hu⟩
    · obtain ⟨v, hv, hline⟩ := ih u hu
      exact ⟨v, List.mem_cons_of_mem t (List.mem_of_mem_drop hv), hline⟩

/-- Line numbers that never go back still do not after the steps. -/
theorem pairwise_line (h : Worked ps tokens out) (hlines : tokens.Pairwise fun a b => a.line ≤ b.line) :
    out.Pairwise fun a b => a.line ≤ b.line := by
  induction h with
  | nil => exact .nil
  | @cons t rest action _ _ htakes hmore ih =>
    obtain ⟨hfirst, hrest⟩ := List.pairwise_cons.mp hlines
    refine List.pairwise_append.mpr ⟨?_, ih (hrest.sublist (List.drop_sublist _ _)), ?_⟩
    · refine List.pairwise_of_forall_mem_list fun a ha b hb => ?_
      exact Int.le_of_eq ((htakes.line_of_mem_left ha).trans (htakes.line_of_mem_left hb).symm)
    · intro a ha b hb
      obtain ⟨v, hv, hline⟩ := hmore.exists_line b hb
      rw [htakes.line_of_mem_left ha, hline]
      exact hfirst v (List.mem_of_mem_drop hv)

end Worked

/-- Steps through tokens that end in the end mark leave that mark at the end, and neither another one nor a directive before it. -/
theorem Worked.exists_body {ps : List Step} {tokens out : List Token} {last : Token} (h : Worked ps tokens out)
    (hends : EndsIn last tokens) : ∃ body, out = body ++ [last] ∧ ∀ u ∈ body, u.kind ≠ .eof ∧ u.kind ≠ .directive := by
  induction h with
  | nil =>
    obtain ⟨body, heq, -⟩ := hends
    simp at heq
  | @cons t rest action more out htakes hmore ih =>
    by_cases heof : t.kind = .eof
    · obtain ⟨rfl, rfl⟩ := hends.of_eof heof
      rw [List.drop_nil] at hmore
      cases hmore
      rw [htakes.keep_of_eof heof]
      exact ⟨[], rfl, by simp⟩
    · obtain ⟨body, rfl, hbody⟩ := ih ((hends.tail heof).drop htakes.kind_of_mem_take)
      refine ⟨Step.left ⟨t, rest, action⟩ ++ body, (List.append_assoc ..).symm, ?_⟩
      intro u hu
      rcases List.mem_append.mp hu with hu | hu
      · exact htakes.kind_of_mem_left heof hu
      · exact hbody u hu

/-! ## A whole run -/

/-- What preprocessing does to the tokens of a source, which are a stream: its steps take up pieces that follow one another and make up the
stream. Each takes as many tokens as it says, one that replaces tokens tells which they are, and what each leaves is the token it is at or
generated tokens on the line of that token. All that they leave is the result: it ends in the end mark of the stream, has no other end mark
and no directive, and its line numbers never go back. -/
theorem preprocess_partitions (files : FileAccess) :
    (∀ lines uri, IsStream (Token.ofLines lines uri).state) ∧
    ∀ {tokens out : List Token} {s s' : Logged Session}, IsStream tokens → preprocess files tokens s = .ok out s' →
      (steps files tokens s).flatMap Step.segment = tokens ∧
      (∀ p ∈ steps files tokens s, p.segment.length = p.action.consumed ∧ p.segment.head? = some p.head ∧
        ∀ beyond skipped injected, p.action = .replace beyond skipped injected → skipped = p.segment) ∧
      (steps files tokens s).flatMap Step.left = out ∧
      (∀ p ∈ steps files tokens s, ∀ u ∈ p.left,
        (p.action = .keep ∧ u = p.head) ∨ (u.generated = true ∧ u.line = p.head.line ∧ u.uri = p.head.uri)) ∧
      (∃ body last, out = body ++ [last] ∧ tokens.getLast? = some last ∧ last.kind = .eof ∧
        ∀ u ∈ body, u.kind ≠ .eof ∧ u.kind ≠ .directive) ∧
      out.Pairwise fun a b => a.line ≤ b.line := by
  refine ⟨Token.isStream_ofLines, fun hstream h => ?_⟩
  have hworked := worked_of_ok h
  obtain ⟨last, hends⟩ := hstream.ends
  refine ⟨hworked.flatMap_segment, ?_, hworked.flatMap_left, ?_, ?_, hworked.pairwise_line hstream.lines⟩
  · intro p hp
    have htakes := hworked.takes p hp
    refine ⟨?_, rfl, ?_⟩
    · rw [Step.segment, List.length_take, List.length_cons, Nat.min_eq_left]
      exact Nat.succ_le_succ htakes.beyond_le
    · intro beyond skipped injected haction
      rw [haction] at htakes
      rw [Step.segment, haction]
      exact htakes.skipped_eq
  · intro p hp
    exact (hworked.takes p hp).mem_left
  · obtain ⟨body, hout, hbody⟩ := hworked.exists_body hends
    obtain ⟨front, rfl, hlast, -⟩ := hends
    exact ⟨body, last, hout, List.getLast?_concat .., hlast, hbody⟩

/-- A source with an invocation that goes over two lines. -/
def Token.invocation : List Token :=
  (Token.ofSource "#define F(x) x + x\nF(a\n) c\n").state

set_option maxRecDepth 2000 in
/-- The steps take up the directive, the four tokens of the invocation, the token after it and the end mark. What the invocation leaves is
generated and stands on its first line. -/
theorem preprocess_partitions_invocation : ∃ out s',
    preprocess {} Token.invocation Session.bare = .ok out s' ∧
    (out.map fun u => (u.value, u.line, u.generated)) =
      [("a", 2, true), ("+", 2, true), ("a", 2, true), ("c", 3, false), ("", 3, false)] ∧
    ((steps {} Token.invocation Session.bare).map fun p => p.segment.map (·.value)) =
      [["#define F(x) x + x"], ["F", "(", "a", ")"], ["c"], [""]] ∧
    (steps {} Token.invocation Session.bare).flatMap Step.segment = Token.invocation ∧
    (steps {} Token.invocation Session.bare).flatMap Step.left = out ∧
    out.Pairwise fun a b => a.line ≤ b.line := by
  have hvalues : ((preprocess {} Token.invocation).run' Session.bare).map
      (fun out => out.map fun u => (u.value, u.line, u.generated)) =
      some [("a", 2, true), ("+", 2, true), ("a", 2, true), ("c", 3, false), ("", 3, false)] := by
    cbv
  have hsegments : ((steps {} Token.invocation Session.bare).map fun p => p.segment.map (·.value)) =
      [["#define F(x) x + x"], ["F", "(", "a", ")"], ["c"], [""]] := by
    cbv
  obtain ⟨out, s', h, hout⟩ := map_run'_eq_some.mp hvalues
  obtain ⟨hstream, hrun⟩ := preprocess_partitions {}
  obtain ⟨hsegment, -, hleft, -, -, hlines⟩ := hrun (hstream _ _) h
  exact ⟨out, s', h, hout, hsegments, hsegment, hleft, hlines⟩

end Prepass
