/-!
# Ranks

A rank is a list of numbers of bounded length. Ranks are compared entry by entry from the front, and a list comes before its
extensions. No rank has infinitely many ranks below it one after another (`Rank.wellFounded`), although an entry may be
followed by entries of any size: this is what makes a stack machine stop whose frames shrink but whose stack may grow, as long as
the stack has a greatest height.
-/

namespace Prepass

/-- The order of lists of numbers, entry by entry from the front; a list comes before its extensions. -/
abbrev LexBelow : List Nat → List Nat → Prop :=
  List.Lex (· < ·)

namespace LexBelow

/-- What is below stays below the extensions of what it was below. -/
theorem append_right {a b : List Nat} (h : LexBelow a b) (c : List Nat) : LexBelow a (b ++ c) := by
  induction h with
  | nil => exact .nil
  | rel hlt => exact .rel hlt
  | cons _ ih => exact .cons ih

/-- A common front does not matter. -/
theorem append_left (c : List Nat) {a b : List Nat} (h : LexBelow a b) : LexBelow (c ++ a) (c ++ b) := by
  induction c with
  | nil => exact h
  | cons x c ih => exact .cons ih

theorem trans {a b c : List Nat} (h : LexBelow a b) (h' : LexBelow b c) : LexBelow a c := by
  induction h generalizing c with
  | nil =>
    cases h' with
    | rel _ => exact .nil
    | cons _ => exact .nil
  | rel hlt =>
    cases h' with
    | rel hlt' => exact .rel (Nat.lt_trans hlt hlt')
    | cons _ => exact .rel hlt
  | cons _ ih =>
    cases h' with
    | rel hlt' => exact .rel hlt'
    | cons h' => exact .cons (ih h')

end LexBelow

/-- A list of at most `bound` numbers. -/
structure Rank (bound : Nat) where
  entries : List Nat
  length_le : entries.length ≤ bound

namespace Rank

/-- One rank comes before another. -/
def Below {bound : Nat} (a b : Rank bound) : Prop :=
  LexBelow a.entries b.entries

/-- Nothing is below the empty rank. -/
theorem acc_nil {bound : Nat} (h : ([] : List Nat).length ≤ bound) : Acc (@Below bound) ⟨[], h⟩ :=
  ⟨_, fun _ hb => absurd hb List.not_lex_nil⟩

/-- Ranks that begin with the same number are below each other as their tails are. -/
theorem acc_cons {bound : Nat} (x : Nat) (head : ∀ y < x, ∀ t h, Acc (@Below (bound + 1)) ⟨y :: t, h⟩)
    (tail : Rank bound) (hacc : Acc Below tail) :
    ∀ h, Acc (@Below (bound + 1)) ⟨x :: tail.entries, h⟩ := by
  induction hacc with
  | intro tail _ ih =>
    intro h
    refine ⟨_, fun b hb => ?_⟩
    obtain ⟨entries, hlen⟩ := b
    cases hb with
    | nil => exact acc_nil hlen
    | rel hlt => exact head _ hlt _ _
    | cons hb => exact ih ⟨_, Nat.le_of_succ_le_succ hlen⟩ hb hlen

/-- Below a rank there are ranks with the same first number and a lower tail, and ranks with a lower first number: the former are
reached by induction on the tail, the latter by induction on the first number. -/
theorem acc_all {bound : Nat} (tails : WellFounded (@Below bound)) (x : Nat) :
    ∀ t h, Acc (@Below (bound + 1)) ⟨x :: t, h⟩ := by
  induction x using Nat.strongRecOn with
  | ind x ih => exact fun t h => acc_cons x ih ⟨t, Nat.le_of_succ_le_succ h⟩ (tails.apply _) h

/-- Going down from a rank comes to an end. -/
theorem wellFounded (bound : Nat) : WellFounded (@Below bound) := by
  induction bound with
  | zero =>
    refine ⟨fun a => ?_⟩
    obtain ⟨entries, h⟩ := a
    cases entries with
    | nil => exact acc_nil h
    | cons _ _ => exact absurd h (by simp)
  | succ bound ih =>
    refine ⟨fun a => ?_⟩
    obtain ⟨entries, h⟩ := a
    cases entries with
    | nil => exact acc_nil h
    | cons x t => exact acc_all ih x t h

instance (bound : Nat) : WellFoundedRelation (Rank bound) where
  rel := Below
  wf := wellFounded bound

end Rank

end Prepass
