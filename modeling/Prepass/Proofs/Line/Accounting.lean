import Mathlib
import Prepass.Proofs.Line.Composition

/-!
# Physical lines accounted for

Characters are added to the line under construction and never taken off (`LogicalLine.withMore`). A physical line is recorded, and counted, when one
of the characters it adds is no blank (`Splice.readLine_eq_added`). So a logical line with a recorded physical line is not blank and is kept,
whatever continuations and comments come after it. The numbers it records increase and lie between its first and its last physical line, the
logical lines do not overlap, and the count is the number of recorded lines (`Splice.Accounted`, kept by every physical line in
`Splice.Accounted.feed`; for a whole source, `Splice.accounting_ofLines`).
-/

namespace Prepass

/-! ## Lines that grow -/

namespace LogicalLine

/-- The line with more characters, latest first. -/
def withMore (l : LogicalLine) (added : List Char) : LogicalLine :=
  { l with latest := added ++ l.latest }

variable (l : LogicalLine)

theorem withMore_nil : l.withMore [] = l := rfl

/-- Characters that are added in two parts are added at once. -/
theorem withMore_withMore (first second : List Char) : (l.withMore first).withMore second = l.withMore (second ++ first) := by
  simp [withMore]

/-- A space adds a character, or none after another blank. -/
theorem exists_pushSpace : ∃ added, l.pushSpace = l.withMore added := by
  unfold pushSpace
  split
  · exact ⟨[], rfl⟩
  · exact ⟨[' '], rfl⟩

/-- A line is blank when all its characters are. -/
theorem category_eq_blank_iff_latest : l.category = .blank ↔ ∀ c ∈ l.latest, Text.isBlank c = true := by
  have hsqueezed : l.squeezed.text = Phases.squeeze l.chars := rfl
  rw [category_eq_blank_iff, hsqueezed, Phases.squeeze_eq_nil_iff]
  simp [chars]

/-- A line that is not blank stays so when more comes to it. -/
theorem category_withMore_ne {l : LogicalLine} (h : l.category ≠ .blank) (added : List Char) : (l.withMore added).category ≠ .blank := by
  rw [ne_eq, category_eq_blank_iff_latest] at h ⊢
  exact fun hall => h fun c hc => hall c (List.mem_append_right _ hc)

end LogicalLine

namespace Cleaning

/-- A character that is read adds to the line. -/
theorem exists_added_step (s : Cleaning) (c : Char) : ∃ added, (s.step c).line = s.line.withMore added := by
  obtain ⟨situation, line⟩ := s
  unfold step
  cases situation with
  | within spot =>
    dsimp only
    split
    · exact ⟨[], rfl⟩
    · cases spot <;> exact ⟨[_], rfl⟩
  | slash =>
    dsimp only
    split
    · exact ⟨[], rfl⟩
    · split
      · exact ⟨[], rfl⟩
      · exact ⟨[_, _], rfl⟩
  | lineComment => exact ⟨[], rfl⟩
  | block =>
    dsimp only
    split <;> exact ⟨[], rfl⟩
  | star =>
    dsimp only
    split
    · exact line.exists_pushSpace
    · split <;> exact ⟨[], rfl⟩

/-- A cleaner only adds characters to its line. -/
theorem exists_added_foldl (body : List Char) (s : Cleaning) : ∃ added, (body.foldl step s).line = s.line.withMore added := by
  induction body generalizing s with
  | nil => exact ⟨[], rfl⟩
  | cons c rest ih =>
    obtain ⟨first, hfirst⟩ := s.exists_added_step c
    obtain ⟨second, hsecond⟩ := ih (s.step c)
    refine ⟨second ++ first, ?_⟩
    rw [List.foldl_cons, hsecond, hfirst, LogicalLine.withMore_withMore]

end Cleaning

/-- Ending a line adds a slash that was held back, or nothing. -/
theorem Cleaner.exists_added_endLine (modes : Modes) (line : LogicalLine) : ∃ added, (endLine modes line).1.line = line.withMore added := by
  unfold endLine
  split
  · exact ⟨[], rfl⟩
  · exact line.exists_pushSpace
  · exact ⟨[_], rfl⟩
  · exact ⟨[], rfl⟩
  · exact ⟨[], rfl⟩
  · exact ⟨[], rfl⟩
  · exact ⟨[], rfl⟩

namespace LogicalLine

/-- The finished lines, latest first, with one more line, unless it is blank. -/
def keptAfter (l : LogicalLine) (earlier : List LogicalLine) : List LogicalLine :=
  if l.category = .blank then earlier else l :: earlier

end LogicalLine

namespace Splice

/-- A line is kept unless it is blank. -/
theorem keepLine_eq (s : Splice) : s.keepLine = { s with earlier := s.line.keptAfter s.earlier } := by
  unfold keepLine LogicalLine.keptAfter
  split <;> rfl

/-- What reading the characters of a physical line comes to: the line is recorded and counted when it adds more than blanks. -/
theorem readLine_eq_added {s : Splice} {situation : Situation} (h : s.modes = situation.modes) (body : List Char) (continued : Bool) :
    ∃ added, (body.foldl Cleaning.step ⟨situation, s.line⟩).line = s.line.withMore added ∧
      s.readLine body continued =
        { s with
          line := if added.any (!Text.isBlank ·) then (s.line.withMore added).addPhysical (s.total + 1 : Nat) else s.line.withMore added
          modes := (body.foldl Cleaning.step ⟨situation, s.line⟩).situation.modes
          sloc := if added.any (!Text.isBlank ·) then s.sloc + 1 else s.sloc
          total := s.total + 1
          continued } := by
  obtain ⟨added, hadded⟩ := Cleaning.exists_added_foldl body ⟨situation, s.line⟩
  refine ⟨added, hadded, ?_⟩
  have htake : (s.line.withMore added).latest.take ((s.line.withMore added).latest.length - s.line.latest.length) = added := by
    simp [LogicalLine.withMore]
  unfold readLine
  rw [h, process_eq body ⟨situation, s.line⟩, Cleaning.cleaned, hadded]
  dsimp only
  rw [htake]
  split <;> rfl

/-- What the end of a logical line comes to: it may add to the line, keeps it unless it is blank, and begins the next one. -/
theorem endLine_eq_added (s : Splice) : ∃ added latest, (Cleaner.endLine s.modes s.line).1.line = s.line.withMore added ∧
    s.endLine = { s with
      earlier := (s.line.withMore added).keptAfter s.earlier
      line := .startingAt (s.total + 1)
      modes := (Cleaner.endLine s.modes s.line).1.modes
      latest } := by
  obtain ⟨added, hadded⟩ := Cleaner.exists_added_endLine s.modes s.line
  obtain ⟨latest, hend⟩ := s.endLine_eq
  refine ⟨added, latest, hadded, ?_⟩
  rw [hend, hadded, keepLine_eq]

/-- At the end of a source the last line is kept unless it is blank. -/
theorem close_eq_kept (s : Splice) : ∃ latest, s.close = { s with earlier := s.line.keptAfter s.earlier, latest } := by
  obtain ⟨latest, hclose⟩ := s.close_eq
  refine ⟨latest, ?_⟩
  rw [hclose, keepLine_eq]

end Splice

/-! ## What a logical line records -/

/-- A line records numbers that increase, between those of its first and its last physical line, and is not blank when it records one. -/
structure LogicalLine.Accounted (l : LogicalLine) : Prop where
  increasing : l.physical.Pairwise (· < ·)
  between : ∀ n ∈ l.physical, l.startLine ≤ n ∧ n ≤ l.endLine
  start_le_end : l.startLine ≤ l.endLine
  not_blank : l.physical ≠ [] → l.category ≠ .blank

namespace LogicalLine.Accounted

variable {l : LogicalLine}

/-- An empty line records no physical line. -/
theorem startingAt (n : Int) : (LogicalLine.startingAt n).Accounted :=
  ⟨.nil, by simp [LogicalLine.startingAt], Int.le_refl n, fun h => absurd rfl h⟩

/-- A line may get more characters. -/
theorem withMore (h : l.Accounted) (added : List Char) : (l.withMore added).Accounted :=
  ⟨h.increasing, h.between, h.start_le_end, fun hphysical => category_withMore_ne (h.not_blank hphysical) added⟩

/-- A physical line after all those that are recorded is recorded in a line that is not blank. -/
theorem addPhysical (h : l.Accounted) {n : Int} (hstart : l.startLine ≤ n) (hlast : ∀ k ∈ l.physical, k < n) (hblank : l.category ≠ .blank) :
    (l.addPhysical n).Accounted where
  increasing := List.pairwise_append.mpr ⟨h.increasing, List.pairwise_singleton _ _, by simpa using hlast⟩
  between := by
    intro k hk
    rcases List.mem_append.mp hk with hk | hk
    · exact ⟨(h.between k hk).1, Int.le_of_lt (hlast k hk)⟩
    · rw [List.mem_singleton.mp hk]
      exact ⟨hstart, Int.le_refl n⟩
  start_le_end := hstart
  not_blank := fun _ => hblank

end LogicalLine.Accounted

namespace Splice

/-- The lines of a source record what they should, one after another, and the count is the number of the recorded lines. -/
structure Accounted (s : Splice) : Prop extends Ordered s where
  line : s.line.Accounted
  positive : 1 ≤ s.line.startLine
  line_end : s.line.endLine = s.line.startLine ∨ s.line.endLine ≤ s.total
  kept : ∀ l ∈ s.earlier, l.Accounted ∧ 1 ≤ l.startLine ∧ l.endLine ≤ s.total
  apart : s.earlier.Pairwise fun later l => l.endLine < later.startLine
  past : ∀ l ∈ s.earlier, l.endLine < s.line.startLine
  sloc_eq : s.sloc = (s.earlier.map (·.physical.length)).sum + s.line.physical.length

namespace Accounted

variable {s : Splice}

/-- Before the first line there is nothing to account for. -/
theorem empty : Accounted {} where
  toOrdered := ordered_empty
  line := .startingAt 1
  positive := Int.le_refl 1
  line_end := .inl rfl
  kept := by simp
  apart := .nil
  past := by simp
  sloc_eq := rfl

/-- The physical lines that the line under construction records have been read. -/
theorem physical_le (h : s.Accounted) : ∀ n ∈ s.line.physical, n ≤ s.total := by
  intro n hn
  have hbetween := (h.line.between n hn).2
  rcases h.started with hstarted | ⟨hempty, -⟩
  · rcases h.line_end with heq | hle <;> omega
  · have hblank : s.line.category = .blank := (s.line.category_eq_blank_iff_latest).mpr (by simp [hempty])
    exact absurd hblank (h.line.not_blank (List.ne_nil_of_mem hn))

/-- A physical line is recorded when it adds more than blanks, and is counted then. -/
theorem readLine (h : s.Accounted) (hsituated : s.Situated) (body : List Char) (continued : Bool) :
    (s.readLine body continued).Accounted := by
  have hordered := (h.toOrdered.readLine body continued).1
  obtain ⟨situation, hmodes⟩ := hsituated
  obtain ⟨added, -, hread⟩ := readLine_eq_added hmodes body continued
  have hstart : s.line.startLine ≤ s.total + 1 := by
    rcases h.started with hle | ⟨-, heq⟩ <;> omega
  have hkept : ∀ l ∈ s.earlier, l.Accounted ∧ 1 ≤ l.startLine ∧ l.endLine ≤ (s.total + 1 : Nat) := fun l hl =>
    ⟨(h.kept l hl).1, (h.kept l hl).2.1, by have := (h.kept l hl).2.2; push_cast; omega⟩
  have hmore := h.line.withMore added
  rw [hread] at hordered ⊢
  by_cases hshows : added.any (!Text.isBlank ·) = true
  · simp only [hshows, if_true] at hordered ⊢
    have hblank : (s.line.withMore added).category ≠ .blank := by
      rw [ne_eq, LogicalLine.category_eq_blank_iff_latest]
      obtain ⟨c, hc, hc'⟩ := List.any_eq_true.mp hshows
      exact fun hall => by simp [hall c (List.mem_append_left _ hc)] at hc'
    have hlast : ∀ k ∈ s.line.physical, k < ((s.total + 1 : Nat) : Int) := fun k hk => by
      have := h.physical_le k hk
      push_cast
      omega
    refine ⟨hordered, hmore.addPhysical (by push_cast; exact hstart) hlast hblank, h.positive, .inr (Int.le_refl _), hkept, h.apart, h.past, ?_⟩
    show s.sloc + 1 = _ + (s.line.physical ++ [_]).length
    rw [h.sloc_eq, List.length_append, List.length_singleton, Nat.add_assoc]
  · simp only [hshows] at hordered ⊢
    refine ⟨hordered, hmore, h.positive, ?_, hkept, h.apart, h.past, h.sloc_eq⟩
    rcases h.line_end with heq | hle
    · exact .inl heq
    · refine .inr ?_
      show s.line.endLine ≤ ((s.total + 1 : Nat) : Int)
      push_cast
      omega

/-- The line under construction is kept with all it records: one that records something is never dropped. The end of the line may have added
characters, and a line that is not blank has been begun. -/
theorem keptAfter (h : s.Accounted) (added : List Char)
    (hstarted : (s.line.withMore added).category ≠ .blank → s.line.startLine ≤ s.total) :
    (∀ l ∈ (s.line.withMore added).keptAfter s.earlier, l.Accounted ∧ 1 ≤ l.startLine ∧ l.endLine ≤ s.total) ∧
    ((s.line.withMore added).keptAfter s.earlier).Pairwise (fun later l => l.endLine < later.startLine) ∧
    s.sloc = (((s.line.withMore added).keptAfter s.earlier).map (·.physical.length)).sum := by
  have hmore := h.line.withMore added
  unfold LogicalLine.keptAfter
  split
  · rename_i hblank
    have hnone : s.line.physical = [] := by
      by_contra hphysical
      exact hmore.not_blank hphysical hblank
    refine ⟨h.kept, h.apart, ?_⟩
    rw [h.sloc_eq, hnone, List.length_nil, Nat.add_zero]
  · rename_i hblank
    have hend : s.line.endLine ≤ s.total := by
      have := hstarted hblank
      rcases h.line_end with heq | hle <;> omega
    refine ⟨List.forall_mem_cons.mpr ⟨⟨hmore, h.positive, hend⟩, h.kept⟩, List.pairwise_cons.mpr ⟨h.past, h.apart⟩, ?_⟩
    rw [h.sloc_eq, List.map_cons, List.sum_cons, Nat.add_comm]
    rfl

/-- A logical line is finished with what it has recorded. -/
theorem endLine (h : s.Accounted) (hstarted : s.line.startLine ≤ s.total) : s.endLine.Accounted := by
  have hordered := h.toOrdered.endLine hstarted
  obtain ⟨added, latest, -, hend⟩ := s.endLine_eq_added
  obtain ⟨hkept, hapart, hsloc⟩ := h.keptAfter added fun _ => hstarted
  rw [hend] at hordered ⊢
  refine ⟨hordered, .startingAt _, ?_, .inl rfl, hkept, hapart, ?_, hsloc⟩
  · show (1 : Int) ≤ s.total + 1
    omega
  · intro l hl
    have := (hkept l hl).2.2
    show l.endLine < (s.total : Int) + 1
    omega

/-- One more physical line keeps the accounts. -/
theorem feed (h : s.Accounted) (hsituated : s.Situated) (physical : List Char) : (s.feed physical).Accounted := by
  have hread := h.readLine hsituated (physicalBody physical).1 (physicalBody physical).2
  have hstarted := (h.toOrdered.readLine (physicalBody physical).1 (physicalBody physical).2).2
  rw [feed_eq (Prod.mk.eta.symm : physicalBody physical = _)]
  split
  · exact hread
  · exact hread.endLine hstarted

/-- Any physical lines leave the account right. -/
theorem foldl_feed (h : s.Accounted) (hsituated : s.Situated) (lines : List (List Char)) : (lines.foldl Splice.feed s).Accounted := by
  induction lines generalizing s with
  | nil => exact h
  | cons line rest ih => exact ih (h.feed hsituated line) (hsituated.feed line)

end Accounted

/-- The finished lines of a source record what they should, one after another, and the count is the number of the recorded lines. -/
theorem accounted_ofLines (lines : List (List Char)) :
    (∀ l ∈ (ofLines lines).finished, l.Accounted ∧ 1 ≤ l.startLine ∧ l.endLine ≤ (ofLines lines).total) ∧
    (ofLines lines).finished.Pairwise (fun l next => l.endLine < next.startLine) ∧
    (ofLines lines).sloc = ((ofLines lines).finished.map (·.physical.length)).sum := by
  have hread : (lines.foldl feed {}).Accounted := Accounted.empty.foldl_feed situated_empty lines
  have hstarted : ((lines.foldl feed {}).line.withMore []).category ≠ .blank →
      (lines.foldl feed {}).line.startLine ≤ (lines.foldl feed {}).total := by
    intro hblank
    rcases hread.started with hle | ⟨hempty, -⟩
    · exact hle
    · rw [LogicalLine.withMore_nil, ne_eq, LogicalLine.category_eq_blank_iff_latest, hempty] at hblank
      exact absurd (by simp) hblank
  obtain ⟨hkept, hapart, hsloc⟩ := hread.keptAfter [] hstarted
  obtain ⟨latest, hclose⟩ := (lines.foldl feed {}).close_eq_kept
  rw [ofLines, hclose]
  rw [LogicalLine.withMore_nil] at hkept hapart hsloc
  refine ⟨fun l hl => hkept l (List.mem_reverse.mp hl), List.pairwise_reverse.mpr hapart, ?_⟩
  rw [finished, List.map_reverse, List.sum_reverse]
  exact hsloc

/-- Each finished line begins after the line where the one before it begins. -/
theorem startLine_ofLines (lines : List (List Char)) :
    (ofLines lines).finished.Pairwise fun l next => l.startLine < next.startLine := by
  obtain ⟨hkept, hapart, -⟩ := accounted_ofLines lines
  refine hapart.imp_of_mem fun hl _ hlt => ?_
  exact Int.lt_of_le_of_lt (hkept _ hl).1.start_le_end hlt

/-- Every physical line is accounted for. The numbers that a logical line records increase and lie between its first and its last
physical line, which are among those that are read. The logical lines come one after another and share no physical line. The count of contributing
physical lines is the number of those that the logical lines record, so none of them is lost with a logical line that is dropped. -/
theorem accounting_ofLines (lines : List (List Char)) :
    (∀ l ∈ (ofLines lines).finished, l.physical.Pairwise (· < ·) ∧ (∀ n ∈ l.physical, l.startLine ≤ n ∧ n ≤ l.endLine) ∧
      1 ≤ l.startLine ∧ l.startLine ≤ l.endLine ∧ l.endLine ≤ (ofLines lines).total) ∧
    (ofLines lines).finished.Pairwise (fun l next => l.endLine < next.startLine) ∧
    (ofLines lines).sloc = ((ofLines lines).finished.map (·.physical.length)).sum ∧ (ofLines lines).total = lines.length := by
  obtain ⟨hkept, hapart, hsloc⟩ := accounted_ofLines lines
  refine ⟨fun l hl => ?_, hapart, hsloc, total_ofLines lines⟩
  obtain ⟨haccounted, hpositive, hend⟩ := hkept l hl
  exact ⟨haccounted.increasing, haccounted.between, hpositive, haccounted.start_le_end, hend⟩

end Splice

end Prepass
