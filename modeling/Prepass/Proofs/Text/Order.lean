import Prepass.Text.Basic

/-!
# The order of texts is total

No text comes before itself, the order is transitive, and of two different texts one comes before the other.
-/

namespace Prepass.Text

@[simp]
theorem charsBefore_nil (a : List Char) : charsBefore a [] = false := by
  cases a <;> rfl

/-- No text comes before itself. -/
theorem charsBefore_irrefl (a : List Char) : charsBefore a a = false := by
  induction a with
  | nil => rfl
  | cons c a ih => simp [charsBefore, ih]

/-- Texts are compared at the first character at which they differ. -/
theorem charsBefore_cons {c d : Char} {a b : List Char} :
    charsBefore (c :: a) (d :: b) = true ↔ c.toNat < d.toNat ∨ (c = d ∧ charsBefore a b = true) := by
  rw [charsBefore]
  split
  · rename_i hsame
    simp [hsame]
  · rename_i hdiff
    simp [hdiff]

/-- The order of texts is transitive. -/
theorem charsBefore_trans {a b c : List Char} (hab : charsBefore a b = true) (hbc : charsBefore b c = true) :
    charsBefore a c = true := by
  induction b generalizing a c with
  | nil => simp at hab
  | cons y b ih =>
    cases c with
    | nil => simp at hbc
    | cons z c =>
      cases a with
      | nil => rfl
      | cons x a =>
        rw [charsBefore_cons] at hab hbc ⊢
        rcases hab with hab | ⟨rfl, hab⟩
        · rcases hbc with hbc | ⟨rfl, hbc⟩
          · exact .inl (Nat.lt_trans hab hbc)
          · exact .inl hab
        · rcases hbc with hbc | ⟨rfl, hbc⟩
          · exact .inl hbc
          · exact .inr ⟨rfl, ih hab hbc⟩

/-- Of two different texts one comes before the other. -/
theorem charsBefore_total (a b : List Char) : charsBefore a b = true ∨ a = b ∨ charsBefore b a = true := by
  induction a generalizing b with
  | nil =>
    cases b with
    | nil => exact .inr (.inl rfl)
    | cons d b => exact .inl rfl
  | cons c a ih =>
    cases b with
    | nil => exact .inr (.inr rfl)
    | cons d b =>
      rw [charsBefore_cons, charsBefore_cons, List.cons.injEq]
      rcases Nat.lt_trichotomy c.toNat d.toNat with hlt | heq | hgt
      · exact .inl (.inl hlt)
      · obtain rfl : c = d := Char.toNat_inj.mp heq
        rcases ih b with hab | hab | hab
        · exact .inl (.inr ⟨rfl, hab⟩)
        · exact .inr (.inl ⟨rfl, hab⟩)
        · exact .inr (.inr (.inr ⟨rfl, hab⟩))
      · exact .inr (.inr (.inl hgt))

/-- No text comes before itself. -/
theorem before_irrefl (a : String) : before a a = false :=
  charsBefore_irrefl a.toList

theorem before_trans {a b c : String} (hab : before a b = true) (hbc : before b c = true) : before a c = true :=
  charsBefore_trans hab hbc

/-- Two texts do not come before each other. -/
theorem not_before_of_before {a b : String} (h : before a b = true) : before b a = false := by
  rw [Bool.eq_false_iff]
  intro hba
  have hself := before_trans h hba
  rw [before_irrefl] at hself
  nomatch hself

/-- Of two different texts one comes before the other. -/
theorem before_total (a b : String) : before a b = true ∨ a = b ∨ before b a = true := by
  rcases charsBefore_total a.toList b.toList with h | h | h
  · exact .inl h
  · exact .inr (.inl (String.toList_inj.mp h))
  · exact .inr (.inr h)

/-- Two texts of which none comes before the other are the same. -/
theorem eq_of_not_before {a b : String} (hab : before a b = false) (hba : before b a = false) : a = b := by
  rcases before_total a b with h | h | h
  · rw [hab] at h
    nomatch h
  · exact h
  · rw [hba] at h
    nomatch h

/-- A text that does not come after another does not come after what the other does not come after. -/
theorem not_before_trans {a b c : String} (hab : before b a = false) (hbc : before c b = false) : before c a = false := by
  rw [Bool.eq_false_iff] at hab hbc ⊢
  intro hca
  rcases before_total b c with h | rfl | h
  · exact hab (before_trans h hca)
  · exact hab hca
  · exact hbc h

end Prepass.Text
