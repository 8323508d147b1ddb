import Prepass.Proofs.Macro.Coupling

/-!
# Expansion one level further in

Two runs are compared, the second from the expander one level further in and on tokens that say the same. The second has less room below
the ceiling, and that is the only difference: both come to tokens that say the same, or to the same fault, unless the second nests too
deeply, which it then tells (`Deeper.coupling`).
-/

namespace Prepass

open Expand

/-- The same expander one level further in, at a level and below a ceiling, and the same things told. -/
structure Deeper (level ceiling : Int) (s s' : Logged Expander) : Prop where
  eq_enter : s' = { s with state := s.state.enter }
  level_eq : s.state.level = level
  ceiling_eq : s.state.maxLevel = ceiling

namespace Deeper

variable {level ceiling : Int} {s s' : Logged Expander}

theorem table_eq (h : Deeper level ceiling s s') : s'.state.table = s.state.table := by
  rw [h.eq_enter]
  rfl

theorem withTable (h : Deeper level ceiling s s') (t : Table) :
    Deeper level ceiling { s with state := s.state.withTable t } { s' with state := s'.state.withTable t } := by
  refine ⟨?_, h.level_eq, h.ceiling_eq⟩
  rw [h.eq_enter]
  rfl

/-- The state one level further in is coupled with the other, and has less room. -/
theorem coupling (ceiling : Int) : Coupling True ceiling fun level => Deeper (level - 1) ceiling where
  get?_eq h name := by rw [h.table_eq]
  size_eq h := by rw [h.table_eq]
  level_eq h := by
    rw [h.eq_enter]
    have := h.level_eq
    simp only [Expander.enter]
    omega
  ceiling_eq h := by
    rw [h.eq_enter]
    exact h.ceiling_eq
  room h := by
    rw [h.eq_enter]
    simp only [Expander.enter]
    omega
  even _ heven := absurd trivial heven
  note h n := by
    refine ⟨?_, h.level_eq, h.ceiling_eq⟩
    rw [h.eq_enter]
    rfl
  disable h name := by
    rw [h.table_eq]
    exact h.withTable _
  enable _ name := respects_enable (fun h => h.table_eq.symm) (fun t h => h.withTable t) name
  enter {level s s'} h := by
    have hlevel := h.level_eq
    refine ⟨?_, ?_, h.ceiling_eq⟩
    · rw [h.eq_enter]
    · simp only [Expander.enter]
      omega
  leave {level s s'} h := by
    have hlevel := h.level_eq
    refine ⟨?_, ?_, h.ceiling_eq⟩
    · rw [h.eq_enter]
      simp [Expander.enter, Expander.leave]
    · simp only [Expander.leave]
      omega

end Deeper

end Prepass
