import Prepass.Proofs.Line.Cleaning

/-!
# The modes of a cleaner

Whatever a cleaner is called for, its modes have one of a few shapes (`shapes`): plain code at the bottom, and on it what the cleaner is in the
middle of. These are the modes of its situations, so a call that begins in one of them ends in one of them, without a fault
(`cleaned_of_shape`), and calls on parts of a text come to the same as one call on all of it (`modesAfter_shaped`).
-/

namespace Prepass.Cleaner

/-- The modes that a cleaner can have: plain code, and on it nothing, a slash that waits, a comment, perhaps with a star that waits, or a
literal, perhaps with a backslash that waits. -/
def shapes : List Modes :=
  [[.code], [.slash, .code], [.lineComment, .code], [.blockComment, .code], [.blockStar, .blockComment, .code],
   [.doubleQuote, .code], [.escape, .doubleQuote, .code], [.singleQuote, .code], [.escape, .singleQuote, .code]]

/-- A call of a cleaner, for characters or for the end of a logical line, with the line that it adds to. -/
inductive Call where
  | process (line : LogicalLine) (chars : List Char)
  | endLine (line : LogicalLine)

/-- What a call leaves. -/
def Call.cleaned (modes : Modes) : Call → Cleaned
  | process line chars => Cleaner.process modes line { items := chars }
  | endLine line => (Cleaner.endLine modes line).1

/-- The modes of a new cleaner after several calls. -/
def modesAfter (calls : List Call) : Modes :=
  calls.foldl (fun modes call => (call.cleaned modes).modes) initial

section

variable {modes : Modes}

theorem mem_shapes_iff : modes ∈ shapes ↔ ∃ situation : Situation, modes = situation.modes := by
  constructor
  · intro h
    simp only [shapes, List.mem_cons, List.not_mem_nil, or_false] at h
    rcases h with rfl | rfl | rfl | rfl | rfl | rfl | rfl | rfl | rfl
    · exact ⟨.within .code, rfl⟩
    · exact ⟨.slash, rfl⟩
    · exact ⟨.lineComment, rfl⟩
    · exact ⟨.block, rfl⟩
    · exact ⟨.star, rfl⟩
    · exact ⟨.within (.literal .double), rfl⟩
    · exact ⟨.within (.escaped .double), rfl⟩
    · exact ⟨.within (.literal .single), rfl⟩
    · exact ⟨.within (.escaped .single), rfl⟩
  · rintro ⟨situation, rfl⟩
    cases situation with
    | within spot =>
      cases spot with
      | code => decide
      | literal q | escaped q => cases q <;> decide
    | slash | lineComment | block | star => decide

/-- A call keeps the shape, and stops at no fault. -/
theorem cleaned_of_shape (h : modes ∈ shapes) (call : Call) : (call.cleaned modes).modes ∈ shapes ∧ (call.cleaned modes).fault = none := by
  obtain ⟨situation, rfl⟩ := mem_shapes_iff.mp h
  cases call with
  | process line chars =>
    rw [Call.cleaned, process_eq chars ⟨situation, line⟩]
    exact ⟨mem_shapes_iff.mpr ⟨_, rfl⟩, rfl⟩
  | endLine line =>
    have hcode : initial ∈ shapes := by decide
    cases situation with
    | within spot =>
      cases spot with
      | code => exact ⟨hcode, rfl⟩
      | literal q | escaped q => cases q <;> exact ⟨hcode, rfl⟩
    | slash | lineComment => exact ⟨hcode, rfl⟩
    | block | star => exact ⟨h, rfl⟩

theorem modesAfter_mem_shapes (calls : List Call) : modesAfter calls ∈ shapes := by
  rw [modesAfter]
  refine List.foldlRecOn calls _ (by decide) fun modes h call _ => ?_
  exact (cleaned_of_shape h call).1

/-- Characters that are read after others come to the same as all of them at once. -/
theorem process_append (h : modes ∈ shapes) (line : LogicalLine) (xs ys : List Char) :
    process modes line { items := xs ++ ys } =
      process (process modes line { items := xs }).modes (process modes line { items := xs }).line { items := ys } := by
  obtain ⟨situation, rfl⟩ := mem_shapes_iff.mp h
  have hxs := process_eq xs ⟨situation, line⟩
  have hall := process_eq (xs ++ ys) ⟨situation, line⟩
  rw [List.foldl_append] at hall
  dsimp only at hxs hall
  rw [hall, hxs]
  exact (process_eq ys (xs.foldl Cleaning.step ⟨situation, line⟩)).symm

/-- Plain code is at the bottom, and the modes that a character may take off are not all there are: any other mode has one below it, and a
star that waits has two. -/
theorem bottom_of_shape (h : modes ∈ shapes) : modes.getLast? = some .code ∧ (modes.head? = some .code ∨ modes.tail ≠ []) ∧
    (modes.head? ≠ some .blockStar ∨ modes.tail.tail ≠ []) := by
  have hall : ∀ modes ∈ shapes, modes.getLast? = some .code ∧ (modes.head? = some .code ∨ modes.tail ≠ []) ∧
      (modes.head? ≠ some .blockStar ∨ modes.tail.tail ≠ []) := by decide
  exact hall modes h

end

/-- After any calls a cleaner has modes of one of the shapes, with plain code at the bottom and more modes than a character takes off. The
next call stops at no fault, and characters may be given to it in one call or in two. -/
theorem modesAfter_shaped (calls : List Call) :
    modesAfter calls ∈ shapes ∧
    ((modesAfter calls).getLast? = some .code ∧ ((modesAfter calls).head? = some .code ∨ (modesAfter calls).tail ≠ []) ∧
      ((modesAfter calls).head? ≠ some .blockStar ∨ (modesAfter calls).tail.tail ≠ [])) ∧
    (∀ call : Call, (call.cleaned (modesAfter calls)).fault = none) ∧
    ∀ (line : LogicalLine) (xs ys : List Char), process (modesAfter calls) line { items := xs ++ ys } =
      process (process (modesAfter calls) line { items := xs }).modes (process (modesAfter calls) line { items := xs }).line { items := ys } := by
  have h := modesAfter_mem_shapes calls
  exact ⟨h, bottom_of_shape h, fun call => (cleaned_of_shape h call).2, process_append h⟩

end Prepass.Cleaner
