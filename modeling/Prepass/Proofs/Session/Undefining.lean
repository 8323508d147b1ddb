import Mathlib
import Prepass.Proofs.Directive.Definition
import Prepass.Session

/-!
# Settings without a name

A session for settings defines their standard macros and their definitions one after another, so that a later one takes the place of an
earlier one of its name. Taking a name out of the settings takes just the definitions out that would have defined that name, since the name
that is looked for in a definition text is the one that parsing it gives. The two tables are then built side by side: the second never has a
macro of the name, and agrees with the first on every other one (`Table.Without`).
-/

namespace Prepass

namespace Layer

theorem lookup_insert_self (l : Layer) (m : Macro) : (l.insert m).lookup m.name = some m := by
  simp [insert]

/-- Storing a macro changes what a layer says of its own name only. -/
theorem lookup_insert_of_ne (l : Layer) {m : Macro} {name : String} (h : name ≠ m.name) : (l.insert m).lookup name = l.lookup name := by
  have hfilter : (l.filter (·.1 ≠ m.name)).lookup name = l.lookup name := by
    induction l with
    | nil => rfl
    | cons entry l ih =>
      by_cases hentry : entry.1 = m.name
      · have hskip : (name == entry.1) = false := by simpa [hentry] using h
        rw [List.filter_cons_of_neg (by simp [hentry]), ih, List.lookup_cons, hskip]
      · rw [List.filter_cons_of_pos (by simp [hentry]), List.lookup_cons, List.lookup_cons, ih]
  have hskip : (name == m.name) = false := by simpa using h
  rw [insert, List.lookup_cons, hskip]
  exact hfilter

end Layer

namespace Table

variable {t t' : Table} {m : Macro} {name : String}

/-- Defining a macro beforehand changes what the table says of its own name only. -/
theorem get?_predefine_of_ne (t : Table) (h : name ≠ m.name) : (t.predefine m).get? name = t.get? name := by
  unfold get? predefine isDisabled
  dsimp only
  rw [Layer.lookup_insert_of_ne t.predefined h]

/-- The second table is the first without the macro of a name. -/
structure Without (name : String) (t t' : Table) : Prop where
  user_eq : t'.user = t.user
  undefined_eq : t'.undefined = t.undefined
  disabled_eq : t'.disabled = t.disabled
  absent : t'.get? name = none
  others (other : String) : other ≠ name → t'.get? other = t.get? other

/-- The empty table is without every name. -/
theorem without_empty (name : String) : Without name {} {} :=
  ⟨rfl, rfl, rfl, rfl, fun _ _ => rfl⟩

namespace Without

/-- A macro of another name is defined in both tables. -/
theorem predefine (h : Without name t t') (hm : m.name ≠ name) : Without name (t.predefine m) (t'.predefine m) := by
  refine ⟨h.user_eq, h.undefined_eq, h.disabled_eq, (t'.get?_predefine_of_ne hm.symm).trans h.absent, fun other hother => ?_⟩
  by_cases heq : other = m.name
  · unfold get? Table.predefine isDisabled
    dsimp only
    rw [h.user_eq, h.undefined_eq, h.disabled_eq, heq, Layer.lookup_insert_self, Layer.lookup_insert_self]
  · rw [get?_predefine_of_ne t' heq, get?_predefine_of_ne t heq, h.others other hother]

/-- A macro of the name is left out of the second table. -/
theorem leaveOut (h : Without name t t') (hm : m.name = name) : Without name (t.predefine m) t' := by
  refine ⟨h.user_eq, h.undefined_eq, h.disabled_eq, h.absent, fun other hother => ?_⟩
  rw [get?_predefine_of_ne t (hm ▸ hother), h.others other hother]

end Without

end Table

namespace Session

variable {t t' u : Table} {name : String}

/-- The table with the standard macros of settings defined. -/
def predefineStandard (t : Table) (standard : List (String × String)) : Table :=
  standard.foldl (fun (t : Table) (name, body) => t.predefine { name, shape := .object, body := Token.ofText body }) t

/-- A session can be made exactly when every definition of the settings is accepted, and its table has the standard macros below them. -/
theorem ofSettings_eq_ok {settings : Settings} {s : Session} : ofSettings settings = .ok s ↔
    ∃ table, predefineAll (predefineStandard {} settings.standard) settings.defines = .ok table ∧ s = { settings, expander := { table } } := by
  unfold ofSettings
  dsimp only
  constructor
  · intro h
    split at h
    · rename_i table htable
      cases h
      exact ⟨table, htable, rfl⟩
    · cases h
  · rintro ⟨table, htable, rfl⟩
    split
    · rename_i htable'
      cases htable.symm.trans htable'
      rfl
    · rename_i htable'
      cases htable.symm.trans htable'

/-- Dropping a name's standard definitions keeps the tables alike but for that name. -/
theorem without_standard (h : t.Without name t') (standard : List (String × String)) :
    (predefineStandard t standard).Without name (predefineStandard t' (standard.filter (·.1 ≠ name))) := by
  induction standard generalizing t t' with
  | nil => exact h
  | cons entry standard ih =>
    by_cases hname : entry.1 = name
    · rw [List.filter_cons_of_neg (by simp [hname])]
      exact ih (h.leaveOut hname)
    · rw [List.filter_cons_of_pos (by simp [hname])]
      exact ih (h.predefine hname)

/-- Definitions of a name can be left out: the others are parsed as before. -/
theorem without_definitions (h : t.Without name t') {definitions : List String} (hu : predefineAll t definitions = .ok u) :
    ∃ u', predefineAll t' (definitions.filter (Settings.definedName · ≠ name)) = .ok u' ∧ u.Without name u' := by
  induction definitions generalizing t t' with
  | nil =>
    cases hu
    exact ⟨t', rfl, h⟩
  | cons definition definitions ih =>
    cases hm : Macro.ofDefinition definition with
    | error e =>
      rw [predefineAll, hm] at hu
      cases hu
    | ok m =>
      have hdefined := Settings.definedName_eq hm
      rw [predefineAll, hm] at hu
      by_cases hname : m.name = name
      · rw [List.filter_cons_of_neg (by simp [hdefined, hname])]
        exact ih (h.leaveOut hname) hu
      · rw [List.filter_cons_of_pos (by simp [hdefined, hname]), predefineAll, hm]
        exact ih (h.predefine hname) hu

/-- When settings give a session, so do the settings without a name. In that session the name has no macro, and every other name has the one
it had. The name that is looked for in a definition text is the one that parsing the text gives. -/
theorem ofSettings_undefine {settings : Settings} {s : Session} (h : ofSettings settings = .ok s) (name : String) :
    (∃ s', ofSettings (settings.undefine name) = .ok s' ∧ s'.table.get? name = none ∧
      ∀ other, other ≠ name → s'.table.get? other = s.table.get? other) ∧
    ∀ definition m, Macro.ofDefinition definition = .ok m → Settings.definedName definition = m.name := by
  refine ⟨?_, fun definition m => Settings.definedName_eq⟩
  obtain ⟨table, htable, rfl⟩ := ofSettings_eq_ok.mp h
  have hstandard := without_standard (Table.without_empty name) settings.standard
  obtain ⟨table', htable', hwithout⟩ := without_definitions hstandard htable
  exact ⟨_, ofSettings_eq_ok.mpr ⟨table', htable', rfl⟩, hwithout.absent, hwithout.others⟩

/-- Settings with a name that is defined more than once, and with blanks around it. -/
def repeated : Settings where
  defines := ["A", "F(x, rest...)=A x rest", " A =\t2"]
  standard := [("A", "0"), ("B", "A")]

theorem ofSettings_undefine_repeated : ∃ s, ofSettings repeated = .ok s ∧
    ∃ s', ofSettings (repeated.undefine "A") = .ok s' ∧ s'.table.get? "A" = none ∧
      ∀ other, other ≠ "A" → s'.table.get? other = s.table.get? other := by
  have hok : (ofSettings repeated).toOption.isSome = true := by cbv
  cases hs : ofSettings repeated with
  | error e =>
    rw [hs] at hok
    cases hok
  | ok s => exact ⟨s, rfl, (ofSettings_undefine hs "A").1⟩

end Session

end Prepass
