import Mathlib
import Prepass.Proofs.Macro.Coupling

/-!
# Layout has no part in expansion

Two windows may hold the same texts and kinds on other lines, at other columns, in other files, with other blanks between them and with
other marks. Their invocations take up the same number of tokens and come to tokens that say the same, or stop at the same fault
(`expansion_layout`). Of the disabled names only how often each is disabled counts: two expanders that differ in their order are
coupled (`Expander.Similar`).
-/

namespace Prepass

open Expand

/-- The same expander, but for the order of the disabled names. -/
structure Expander.Similar (e e' : Expander) : Prop where
  table_eq : e'.table = { e.table with disabled := e'.table.disabled }
  perm : e.table.disabled.Perm e'.table.disabled
  maxLevel_eq : e.maxLevel = e'.maxLevel
  level_eq : e.level = e'.level

/-- Expanders that are the same but for the order of the disabled names. -/
def Similar (s s' : Logged Expander) : Prop :=
  s.state.Similar s'.state

namespace Expander.Similar

variable {e e' : Expander}

/-- Similar expanders have the same names disabled, in whatever order. -/
theorem isDisabled_eq (h : e.Similar e') (name : String) : e.table.isDisabled name = e'.table.isDisabled name := by
  rw [Table.isDisabled, Table.isDisabled, decide_eq_decide]
  exact h.perm.mem_iff

/-- Similar expanders know the same macros. -/
theorem get?_eq (h : e.Similar e') (name : String) : e.table.get? name = e'.table.get? name := by
  rw [Table.get?, Table.get?, h.isDisabled_eq, h.table_eq]

/-- Permuting the disabled names of similar expanders leaves them similar. -/
theorem withDisabled (h : e.Similar e') {disabled disabled' : List String} (hperm : disabled.Perm disabled') :
    (e.withTable { e.table with disabled }).Similar (e'.withTable { e'.table with disabled := disabled' }) where
  table_eq := by
    rw [h.table_eq]
    rfl
  perm := hperm
  maxLevel_eq := h.maxLevel_eq
  level_eq := h.level_eq

end Expander.Similar

/-- Expanders that are the same but for the order of the disabled names, at a level and below a ceiling. -/
structure SimilarAt (ceiling level : Int) (s s' : Logged Expander) : Prop where
  similar : Similar s s'
  level_eq : s'.state.level = level
  ceiling_eq : s'.state.maxLevel = ceiling

namespace SimilarAt

variable {ceiling level : Int} {s s' : Logged Expander}

/-- Enabling a name drops its latest disabling, which leaves permuted lists permuted. -/
theorem respects_enable (name : String) : Respects (SimilarAt ceiling level) (enable name) := by
  intro s s' h
  have hmem : name ∈ s.state.table.disabled ↔ name ∈ s'.state.table.disabled := h.similar.perm.mem_iff
  unfold enable Table.enable?
  by_cases hdisabled : name ∈ s'.state.table.disabled
  · rw [if_pos (hmem.mpr hdisabled), if_pos hdisabled]
    exact .ok () ⟨h.similar.withDisabled (h.similar.perm.erase name), h.level_eq, h.ceiling_eq⟩
  · rw [if_neg ((not_congr hmem).mpr hdisabled), if_neg hdisabled]
    exact .error _ h

/-- Expanders that are the same but for the order of the disabled names are coupled. -/
theorem coupling (ceiling : Int) : Coupling False ceiling (SimilarAt ceiling) where
  get?_eq h name := h.similar.get?_eq name
  size_eq h := by
    rw [h.similar.table_eq]
    rfl
  level_eq h := h.level_eq
  ceiling_eq h := h.ceiling_eq
  room h := Int.le_of_eq (by rw [h.similar.maxLevel_eq, h.similar.level_eq])
  even h _ := ⟨h.similar.maxLevel_eq, h.similar.level_eq⟩
  note h n := ⟨h.similar, h.level_eq, h.ceiling_eq⟩
  disable h name := ⟨h.similar.withDisabled (h.similar.perm.cons name), h.level_eq, h.ceiling_eq⟩
  enable _ name := respects_enable name
  enter h := by
    obtain ⟨htable, hperm, hceiling, hlevel⟩ := h.similar
    exact ⟨⟨htable, hperm, hceiling, congrArg (· + 1) hlevel⟩, congrArg (· + 1) h.level_eq, h.ceiling_eq⟩
  leave {level s s'} h := by
    obtain ⟨htable, hperm, hceiling, hlevel⟩ := h.similar
    refine ⟨⟨htable, hperm, hceiling, congrArg (· - 1) hlevel⟩, ?_, h.ceiling_eq⟩
    rw [Expander.leave, h.level_eq]
    exact Int.add_sub_cancel ..

/-- What comes to the same in coupled runs comes to the same from every two states that are similar. -/
theorem matches_of_parallel {α β : Type} {view : α → β} {x x' : Expand α}
    (h : ∀ ceiling level, Parallel False False (SimilarAt ceiling level) view x x') (hs : Similar s s') :
    Matches Similar (mapResult view (x s)) (mapResult view (x' s')) := by
  have hmatch := (h s'.state.maxLevel s'.state.level s s' ⟨hs, rfl, rfl⟩).matches
  rcases hmatch.cases with ⟨b, s₁, s₁', hr, hr', h₁⟩ | ⟨err, s₁, s₁', hr, hr', h₁⟩
  · rw [hr, hr']
    exact .ok b h₁.similar
  · rw [hr, hr']
    exact .error err h₁.similar

end SimilarAt

/-- Windows that hold the same texts and kinds, token by token, are expanded alike, however they are laid out: from the same table, with
the same names disabled as often, below the same ceiling and at the same level, the invocation at a place takes up the same number of
tokens and comes to tokens of the same texts and kinds, or there is none, or both stop at the same fault; and so do all invocations. -/
theorem expansion_layout {tokens tokens' : List Token} {s s' : Logged Expander} (htokens : SaySame tokens tokens')
    (hs : Similar s s') (start : Nat) :
    Matches Similar (mapResult (Option.map Expansion.content) (Expand.head tokens start s))
      (mapResult (Option.map Expansion.content) (Expand.head tokens' start s')) ∧
    Matches Similar (mapResult (List.map Token.content) (Expand.all tokens s))
      (mapResult (List.map Token.content) (Expand.all tokens' s')) := by
  have hagree : AgreeTokens False tokens tokens' := ⟨htokens, nofun⟩
  constructor
  · exact SimilarAt.matches_of_parallel (fun ceiling _ => (SimilarAt.coupling ceiling).parallel_head hagree start) hs
  · exact SimilarAt.matches_of_parallel (fun ceiling _ => (SimilarAt.coupling ceiling).parallel_all hagree) hs

/-- Three macros, with some names disabled. -/
def Table.spreading (disabled : List String) : Table :=
  { user := [("F", { name := "F", shape := .function ["x", "y"], body := Token.ofText "y x" }),
      ("A", { name := "A", shape := .object, body := Token.ofText "1 + b" }),
      ("B", { name := "B", shape := .object, body := Token.ofText "2" })]
    disabled }

/-- An invocation that is spread over the lines of two files. -/
def Token.spreadOut : List Token :=
  Token.ofText "F" 3 "a.m" 4 ++ Token.ofText "( A" 4 "b.m" ++ Token.ofText ",B  )" 9 "a.m" 7

set_option maxRecDepth 4000 in
theorem expansion_layout_spreadOut :
    SaySame (Token.ofText "F(A, B)") Token.spreadOut ∧
    Similar { state := { table := .spreading ["B", "C", "B"] } } { state := { table := .spreading ["C", "B", "B"] } } ∧
    ∃ ex s, Expand.head Token.spreadOut 0 { state := { table := .spreading ["C", "B", "B"] } } = .ok (some ex) s ∧
      ex.consumed = 6 ∧
      ex.tokens.map Token.content = [("B", .identifier), ("1", .numberLiteral), ("+", .punctuator), ("b", .identifier)] := by
  have hsame : SaySame (Token.ofText "F(A, B)") Token.spreadOut := by
    unfold SaySame
    cbv
  have hsimilar : Similar { state := { table := .spreading ["B", "C", "B"] } }
      { state := { table := .spreading ["C", "B", "B"] } } := ⟨rfl, .swap "C" "B" ["B"], rfl, rfl⟩
  have hrun : mapResult (Option.map Expansion.content)
      (Expand.head (Token.ofText "F(A, B)") 0 { state := { table := .spreading ["B", "C", "B"] } }) =
        .ok (some (5, [("B", .identifier), ("1", .numberLiteral), ("+", .punctuator), ("b", .identifier)]))
          { state := { table := .spreading ["B", "C", "B"] } } := by
    cbv
  refine ⟨hsame, hsimilar, ?_⟩
  have hmatch := (expansion_layout hsame hsimilar 0).1
  rw [hrun] at hmatch
  obtain ⟨_, _, s', hr, hr', _⟩ | ⟨_, _, _, hr, _⟩ := hmatch.cases
  · cases hr
    cases hx : Expand.head Token.spreadOut 0 { state := { table := .spreading ["C", "B", "B"] } } with
    | ok found s =>
      rw [hx] at hr'
      obtain ⟨hfound, rfl⟩ := EStateM.Result.ok.inj hr'
      obtain ⟨ex, rfl, hcontent⟩ := Option.map_eq_some_iff.mp hfound
      obtain ⟨hbeyond, htokens⟩ := Prod.mk.inj hcontent
      exact ⟨ex, s, rfl, congrArg (· + 1) hbeyond, htokens⟩
    | error e s =>
      rw [hx] at hr'
      cases hr'
  · cases hr

end Prepass
