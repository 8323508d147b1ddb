import Mathlib
import Prepass.Proofs.Macro.Coupling

/-!
# Raising the ceiling

The ceiling for nested expansion is looked at before every invocation and after every replacement, and an invocation that goes beyond it is
left alone on the spot. An expansion in which that never happens, at any depth of arguments, is the same below every higher
ceiling: the same tokens, the same notices and the same fault if there is one (`ceiling_transparent`). Two runs below different
ceilings are coupled, and the one below the lower ceiling has less room.
-/

namespace Prepass

open Expand

/-- The expander below another ceiling. -/
def Expander.below (e : Expander) (ceiling : Int) : Expander :=
  { e with maxLevel := ceiling }

/-- The state with the expander below another ceiling. -/
def Logged.below (s : Logged Expander) (ceiling : Int) : Logged Expander :=
  { s with state := s.state.below ceiling }

/-- What work comes to, with the expander that it leaves below another ceiling. -/
def Expand.Outcome.below {α : Type} (ceiling : Int) : Outcome α → Outcome α
  | .ok a s => .ok a (s.below ceiling)
  | .error e s => .error e (s.below ceiling)

/-- Whether nesting was too deep does not hang on the ceiling of the expander that is left. -/
theorem TooDeep.of_below {α : Type} {ceiling : Int} {r : Outcome α} (h : TooDeep (Outcome.below ceiling r)) : TooDeep r := by
  cases r with
  | ok a s => exact h
  | error e s => exact h

/-- Nesting was not too deep for work that comes to a value and told nothing. -/
theorem not_tooDeep_of_silent {α : Type} {a : α} {e : Expander} : ¬TooDeep (.ok a { state := e }) := by
  rintro ⟨_, _, hmem⟩
  cases hmem

/-- The same state below a higher ceiling and below a lower one, at a level. -/
structure Raised (higher ceiling level : Int) (s s' : Logged Expander) : Prop where
  eq_below : s = s'.below higher
  level_eq : s'.state.level = level
  ceiling_eq : s'.state.maxLevel = ceiling

namespace Raised

variable {higher ceiling level : Int} {s s' : Logged Expander}

theorem table_eq (h : Raised higher ceiling level s s') : s.state.table = s'.state.table := by
  rw [h.eq_below]
  rfl

theorem withTable (h : Raised higher ceiling level s s') (t : Table) :
    Raised higher ceiling level { s with state := s.state.withTable t } { s' with state := s'.state.withTable t } := by
  refine ⟨?_, h.level_eq, h.ceiling_eq⟩
  rw [h.eq_below]
  rfl

/-- Runs below a higher and a lower ceiling are coupled, and the second has less room. -/
theorem coupling (hle : ceiling ≤ higher) : Coupling True ceiling (Raised higher ceiling) where
  get?_eq h name := by rw [h.table_eq]
  size_eq h := by rw [h.table_eq]
  level_eq h := h.level_eq
  ceiling_eq h := h.ceiling_eq
  room h := by
    rw [h.eq_below, h.ceiling_eq]
    exact Int.sub_le_sub_right hle _
  even _ heven := absurd trivial heven
  note h n := by
    refine ⟨?_, h.level_eq, h.ceiling_eq⟩
    rw [h.eq_below]
    rfl
  disable h name := by
    rw [h.table_eq]
    exact h.withTable _
  enable _ name := respects_enable (fun h => h.table_eq) (fun t h => h.withTable t) name
  enter h := by
    refine ⟨?_, congrArg (· + 1) h.level_eq, h.ceiling_eq⟩
    rw [h.eq_below]
    rfl
  leave h := by
    refine ⟨?_, ?_, h.ceiling_eq⟩
    · rw [h.eq_below]
      rfl
    · rw [Expander.leave, h.level_eq]
      exact Int.add_sub_cancel ..

/-- Work that comes to the same in coupled runs comes to the very same below a higher ceiling, unless it nests too deeply. -/
theorem transparent_of_parallel {α β : Type} {view : α → β} {x : Expand α} {e : Expander}
    (h : ∀ level, Parallel True True (Raised higher e.maxLevel level) view x x) (hroom : ¬TooDeep (x { state := e })) :
    ¬TooDeep (x { state := e.below higher }) ∧ x { state := e.below higher } = Outcome.below higher (x { state := e }) := by
  have hbeside := h e.level { state := e.below higher } { state := e } ⟨rfl, rfl, rfl⟩
  have heq : x { state := e.below higher } = Outcome.below higher (x { state := e }) := by
    generalize x { state := e.below higher } = r at hbeside ⊢
    generalize x { state := e } = r' at hbeside hroom ⊢
    cases hbeside with
    | ok hvalue hs =>
      rw [hvalue.eq trivial, hs.eq_below]
      rfl
    | error err hs =>
      rw [hs.eq_below]
      rfl
    | deep _ hdeep => exact absurd hdeep hroom
  refine ⟨?_, heq⟩
  rw [heq]
  exact fun hdeep => hroom hdeep.of_below

end Raised

/-- When the expansion of the invocation at a place, or that of all invocations, never nests too deeply below a ceiling, neither in itself
nor in an argument at any depth, it does not do so below a higher ceiling either, and comes to the very same there. -/
theorem ceiling_transparent {e : Expander} {higher : Int} (hle : e.maxLevel ≤ higher) (tokens : List Token) :
    (∀ start, ¬TooDeep (Expand.head tokens start { state := e }) →
      ¬TooDeep (Expand.head tokens start { state := e.below higher }) ∧
      Expand.head tokens start { state := e.below higher } = Outcome.below higher (Expand.head tokens start { state := e })) ∧
    (¬TooDeep (Expand.all tokens { state := e }) →
      ¬TooDeep (Expand.all tokens { state := e.below higher }) ∧
      Expand.all tokens { state := e.below higher } = Outcome.below higher (Expand.all tokens { state := e })) := by
  have hcoupling := Raised.coupling hle
  constructor
  · intro start hroom
    exact Raised.transparent_of_parallel (fun _ => hcoupling.parallel_head (.refl tokens) start) hroom
  · intro hroom
    exact Raised.transparent_of_parallel (fun _ => hcoupling.parallel_all (.refl tokens)) hroom

/-- An expander with a low ceiling. -/
def Expander.low : Expander where
  table := { user := [("F", { name := "F", shape := .function ["x"], body := Token.ofText "x + 1" }),
    ("A", { name := "A", shape := .object, body := Token.ofText "2" })] }
  maxLevel := 5

set_option maxRecDepth 4000 in
theorem ceiling_transparent_low : Expander.low.maxLevel ≤ 9 ∧
    ¬TooDeep (Expand.head (Token.ofText "F(F(A)) A") 0 { state := .low }) ∧
    ¬TooDeep (Expand.all (Token.ofText "F(F(A)) A") { state := .low }) ∧
    (∃ ex,
      Expand.head (Token.ofText "F(F(A)) A") 0 { state := Expander.low.below 9 } = .ok (some ex) { state := Expander.low.below 9 } ∧
      ex.consumed = 7 ∧ ex.tokens.map Token.value = ["2", "+", "1", "+", "1"]) ∧
    ∃ ts, Expand.all (Token.ofText "F(F(A)) A") { state := Expander.low.below 9 } = .ok ts { state := Expander.low.below 9 } ∧
      ts.map Token.value = ["2", "+", "1", "+", "1", "2"] := by
  have hle : Expander.low.maxLevel ≤ 9 := by decide
  obtain ⟨ex, hhead, hconsumed, hvalues⟩ : ∃ ex,
      Expand.head (Token.ofText "F(F(A)) A") 0 { state := .low } = .ok (some ex) { state := .low } ∧
      ex.consumed = 7 ∧ ex.tokens.map Token.value = ["2", "+", "1", "+", "1"] := ⟨_, by cbv, by cbv, by cbv⟩
  obtain ⟨ts, hall, hall_values⟩ : ∃ ts,
      Expand.all (Token.ofText "F(F(A)) A") { state := .low } = .ok ts { state := .low } ∧
      ts.map Token.value = ["2", "+", "1", "+", "1", "2"] := ⟨_, by cbv, by cbv⟩
  have hroom : ¬TooDeep (Expand.head (Token.ofText "F(F(A)) A") 0 { state := .low }) := by
    rw [hhead]
    exact not_tooDeep_of_silent
  have hall_room : ¬TooDeep (Expand.all (Token.ofText "F(F(A)) A") { state := .low }) := by
    rw [hall]
    exact not_tooDeep_of_silent
  have hraised := ceiling_transparent hle (Token.ofText "F(F(A)) A")
  refine ⟨hle, hroom, hall_room, ⟨ex, ?_, hconsumed, hvalues⟩, ⟨ts, ?_, hall_values⟩⟩
  · rw [(hraised.1 0 hroom).2, hhead]
    rfl
  · rw [(hraised.2 hall_room).2, hall]
    rfl

end Prepass
