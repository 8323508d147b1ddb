import Prepass.Proofs.Macro.Coupling

/-!
# Notices have no part in expansion

Expansion tells things, but it never looks at what has been told: from the same expander it comes to the same value or fault and to the
same expander, whatever was told before (`Expand.deaf_head`, `Expand.deaf_all`). Two runs that were told different things are coupled,
and neither has less room than the other.
-/

namespace Prepass

open Expand

/-- The expander is the same; what was told may differ. -/
def Alike (s s' : Logged Expander) : Prop :=
  s.state = s'.state

/-- Work on an expander that does not look at what was told. -/
def Deaf {α : Type} (x : Expand α) : Prop :=
  Respects Alike x

/-- The expander is the same, at a level and below a ceiling; what was told may differ. -/
structure AlikeAt (ceiling level : Int) (s s' : Logged Expander) : Prop where
  alike : Alike s s'
  level_eq : s'.state.level = level
  ceiling_eq : s'.state.maxLevel = ceiling

namespace AlikeAt

variable {ceiling level : Int} {s s' : Logged Expander}

/-- What is done to the expander alone, and neither to its level nor to its ceiling, is done to both. -/
theorem update (h : AlikeAt ceiling level s s') {f : Expander → Expander} (hlevel : (f s'.state).level = s'.state.level)
    (hceiling : (f s'.state).maxLevel = s'.state.maxLevel) :
    AlikeAt ceiling level { s with state := f s.state } { s' with state := f s'.state } :=
  ⟨congrArg f h.alike, hlevel.trans h.level_eq, hceiling.trans h.ceiling_eq⟩

/-- Runs that were told different things are coupled. -/
theorem coupling (ceiling : Int) : Coupling False ceiling (AlikeAt ceiling) where
  get?_eq h name := by rw [h.alike]
  size_eq h := by rw [h.alike]
  level_eq h := h.level_eq
  ceiling_eq h := h.ceiling_eq
  room h := Int.le_of_eq (by rw [h.alike])
  even h _ := by rw [h.alike]; exact ⟨rfl, rfl⟩
  note h n := ⟨h.alike, h.level_eq, h.ceiling_eq⟩
  disable h name := h.update (f := fun e => e.withTable (e.table.disable name)) rfl rfl
  enable _ name := respects_enable (fun h => congrArg Expander.table h.alike) (fun t h => h.update (f := (·.withTable t)) rfl rfl) name
  enter h := ⟨congrArg Expander.enter h.alike, congrArg (· + 1) h.level_eq, h.ceiling_eq⟩
  leave h := ⟨congrArg Expander.leave h.alike, by rw [Expander.leave, h.level_eq]; exact Int.add_sub_cancel .., h.ceiling_eq⟩

/-- What comes to the same in coupled runs does not look at what was told. -/
theorem deaf_of_parallel {α β : Type} {view : α → β} {x : Expand α}
    (h : ∀ ceiling level, Parallel True False (AlikeAt ceiling level) view x x) : Deaf x := by
  intro s s' hs
  have hbeside := h s'.state.maxLevel s'.state.level s s' ⟨hs, rfl, rfl⟩
  generalize x s = r at hbeside
  generalize x s' = r' at hbeside
  cases hbeside with
  | ok hvalue hs₁ =>
    cases hvalue.eq trivial
    exact .ok _ hs₁.alike
  | error e hs₁ => exact .error e hs₁.alike
  | deep htighter _ => exact htighter.elim

end AlikeAt

namespace Expand

/-- Expanding the invocation at a place does not look at what was told. -/
theorem deaf_head (tokens : List Token) (start : Nat) : Deaf (head tokens start) :=
  AlikeAt.deaf_of_parallel fun ceiling _ => (AlikeAt.coupling ceiling).parallel_head (.refl tokens) start

/-- Expanding all tokens does not look at what was told. -/
theorem deaf_all (tokens : List Token) : Deaf (all tokens) :=
  AlikeAt.deaf_of_parallel fun ceiling _ => (AlikeAt.coupling ceiling).parallel_all (.refl tokens)

end Expand

end Prepass
