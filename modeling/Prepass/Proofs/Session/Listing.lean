import Prepass.Proofs.Text.Order
import Prepass.Session

/-!
# Listings of include directives

The include directives of a file are listed in order, each once. The order is total, and two directives of the same rank are the same, so
the listing depends on nothing but which directives were recorded (`IncludeLog.ofFile_congr`): not on the order, and not on how often.
-/

namespace Prepass

namespace IncludeLog

/-- A directive comes before those of later lines, and before those of its line whose path does not come before its own. -/
theorem before_iff (a b : Include) :
    before a b = true ↔ a.line < b.line ∨ (a.line = b.line ∧ Text.before b.path a.path = false) := by
  unfold before
  split
  · rename_i hline
    simp [hline]
  · rename_i hline
    simp [hline]

/-- The order of directives is transitive: of two on the same line this rests on the order of paths, which is total. -/
theorem before_trans (a b c : Include) (hab : before a b = true) (hbc : before b c = true) : before a c = true := by
  rw [before_iff] at hab hbc ⊢
  rcases hab with hab | ⟨hab, hpath⟩
  · left
    omega
  · rcases hbc with hbc | ⟨hbc, hpath'⟩
    · left
      omega
    · exact .inr ⟨hab.trans hbc, Text.not_before_trans hpath hpath'⟩

/-- Of two directives one comes before the other. -/
theorem before_total (a b : Include) : (before a b || before b a) = true := by
  rw [Bool.or_eq_true, before_iff, before_iff]
  rcases Int.lt_trichotomy a.line b.line with hline | hline | hline
  · exact .inl (.inl hline)
  · cases hpath : Text.before b.path a.path with
    | false => exact .inl (.inr ⟨hline, rfl⟩)
    | true => exact .inr (.inr ⟨hline.symm, Text.not_before_of_before hpath⟩)
  · exact .inr (.inl hline)

/-- Two directives that come before each other are the same: no two different ones have the same rank. -/
theorem before_antisymm {a b : Include} (hab : before a b = true) (hba : before b a = true) : a = b := by
  rw [before_iff] at hab hba
  obtain ⟨line, path⟩ := a
  obtain ⟨line', path'⟩ := b
  simp only at hab hba
  rcases hab with hab | ⟨rfl, hpath⟩
  · omega
  · rcases hba with hba | ⟨-, hpath'⟩
    · omega
    · rw [Text.eq_of_not_before hpath' hpath]

/-! ## Each once -/

/-- One directive comes before another, different one. -/
def StrictlyBefore (a b : Include) : Prop :=
  before a b = true ∧ a ≠ b

/-- Going on from a directive, with those listed before it, leaves the same directives. -/
theorem mem_loop {x a : Include} {rest listed : List Include} :
    x ∈ List.eraseRepsBy.loop (· == ·) a rest listed ↔ x ∈ listed ∨ x = a ∨ x ∈ rest := by
  induction rest generalizing a listed with
  | nil => simp [List.eraseRepsBy.loop, or_comm]
  | cons b rest ih =>
    rw [List.eraseRepsBy.loop]
    cases hab : a == b with
    | true =>
      have heq : a = b := by simpa using hab
      subst heq
      rw [ih, List.mem_cons]
      grind
    | false =>
      rw [ih, List.mem_cons, List.mem_cons]
      grind

/-- Going on from a directive in a sorted list leaves the directives strictly in order. -/
theorem pairwise_loop {a : Include} {rest listed : List Include} (hlisted : (listed.reverse ++ [a]).Pairwise StrictlyBefore)
    (hrest : (a :: rest).Pairwise (before · · = true)) (hacross : ∀ x ∈ listed, ∀ y ∈ rest, StrictlyBefore x y) :
    (List.eraseRepsBy.loop (· == ·) a rest listed).Pairwise StrictlyBefore := by
  -- those listed come strictly before `a`, and `a` before the rest: a directive equal to `a` is dropped, another one is listed after it
  induction rest generalizing a listed with
  | nil => simpa [List.eraseRepsBy.loop] using hlisted
  | cons b rest ih =>
    obtain ⟨hfirst, hlater⟩ := List.pairwise_cons.mp hrest
    have hab : before a b = true := hfirst b (by simp)
    rw [List.eraseRepsBy.loop]
    cases heq : a == b with
    | true =>
      have hsame : a = b := by simpa using heq
      subst hsame
      exact ih hlisted hlater fun x hx y hy => hacross x hx y (List.mem_cons_of_mem _ hy)
    | false =>
      have hne : a ≠ b := by simpa using heq
      refine ih ?_ hlater ?_
      · rw [List.reverse_cons, List.pairwise_append]
        refine ⟨hlisted, List.pairwise_singleton _ _, ?_⟩
        intro x hx y hy
        rw [List.mem_singleton] at hy
        subst hy
        rcases List.mem_append.mp hx with hx | hx
        · exact hacross x (List.mem_reverse.mp hx) _ (by simp)
        · rw [List.mem_singleton] at hx
          subst hx
          exact ⟨hab, hne⟩
      · intro x hx y hy
        rcases List.mem_cons.mp hx with rfl | hx
        · refine ⟨hfirst y (List.mem_cons_of_mem _ hy), ?_⟩
          rintro rfl
          exact hne (before_antisymm hab ((List.pairwise_cons.mp hlater).1 _ hy))
        · exact hacross x hx y (List.mem_cons_of_mem _ hy)

/-- Leaving out repetitions of neighbours loses no directive. -/
theorem mem_eraseReps {x : Include} {l : List Include} : x ∈ l.eraseReps ↔ x ∈ l := by
  cases l with
  | nil => simp [List.eraseReps, List.eraseRepsBy]
  | cons a rest => simp [List.eraseReps, List.eraseRepsBy, mem_loop]

/-- In a sorted list equal directives are neighbours, so that leaving out repetitions of neighbours leaves none twice. -/
theorem pairwise_eraseReps {l : List Include} (h : l.Pairwise (before · · = true)) : l.eraseReps.Pairwise StrictlyBefore := by
  cases l with
  | nil => exact List.Pairwise.nil
  | cons a rest => exact pairwise_loop (by simp) h (by simp)

/-! ## The listing of a file -/

/-- The listing of a file has exactly the directives recorded for it. -/
theorem mem_ofFile {l : IncludeLog} {file : String} {i : Include} : i ∈ l.ofFile file ↔ (file, i) ∈ l := by
  unfold ofFile
  rw [mem_eraseReps, List.mem_mergeSort]
  simp

/-- The listing of a file is in order and has no directive twice. -/
theorem pairwise_ofFile (l : IncludeLog) (file : String) : (l.ofFile file).Pairwise StrictlyBefore :=
  pairwise_eraseReps (List.pairwise_mergeSort before_trans before_total _)

/-- Two logs with the same include directives of a file list them the same way. -/
theorem ofFile_congr {l l' : IncludeLog} {file : String} (h : ∀ i, (file, i) ∈ l ↔ (file, i) ∈ l') :
    l.ofFile file = l'.ofFile file := by
  have hnodup (l : IncludeLog) : (l.ofFile file).Nodup := (pairwise_ofFile l file).imp fun hab => hab.2
  have hperm : (l.ofFile file).Perm (l'.ofFile file) := by
    rw [List.perm_ext_iff_of_nodup (hnodup l) (hnodup l')]
    intro i
    rw [mem_ofFile, mem_ofFile]
    exact h i
  exact hperm.eq_of_pairwise (fun a b _ _ hab hba => before_antisymm hab.1 hba.1) (pairwise_ofFile l file) (pairwise_ofFile l' file)

end IncludeLog

end Prepass
