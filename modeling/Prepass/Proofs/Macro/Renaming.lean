import Mathlib
import Prepass.Proofs.Macro.Substituting

/-!
# Chains of renamings

A macro may do no more than rename: its body is one other identifier. However long a chain of such macros is, expanding its first name
comes to its last one as long as three levels are left below the ceiling (`head_renamed`). The frame of every name that was passed stays
on the stack until the end, and so the name stays disabled; but the frame is spent, because its only token has been read, and spent frames
do not count towards the ceiling (`rescan_of_leads`). A chain that is closed to a cycle stops at the first name that comes up again.
-/

namespace Prepass

open Expand

/-! ## Renamings -/

/-- The name has an object-like macro whose body is one token, the other name, which is an identifier. -/
structure Table.Renames (t : Table) (name other : String) : Prop where
  exists_macro : ∃ m, t.get? name = some m ∧ m.shape = .object ∧ m.body.map Token.value = [other]
  isIdentifier : Lexer.IsIdentifier other.toList

/-- Renaming leads from a name to the last one, and the names before the last are those passed, in order. -/
inductive Table.Leads (t : Table) : List String → String → String → Prop
  | here (name : String) : t.Leads [] name name
  | step {passed : List String} {name next last : String} (h : t.Renames name next) (more : t.Leads passed next last) :
    t.Leads (name :: passed) name last

namespace Table.Leads

variable {t : Table} {passed : List String} {name other last : String}

/-- One more renaming may follow at the end. -/
theorem snoc (h : t.Leads passed name last) (hlast : t.Renames last other) : t.Leads (passed ++ [last]) name other := by
  induction h with
  | here name => exact .step hlast (.here other)
  | step hname _ ih => exact .step hname (ih hlast)

/-- The first name is passed when any is. -/
theorem mem_of_ne_nil (h : t.Leads passed name last) (hne : passed ≠ []) : name ∈ passed := by
  cases h with
  | here => exact absurd rfl hne
  | step => exact List.mem_cons_self

end Table.Leads

/-- A name as it is lexed at the place of a token. -/
def Token.named (name : String) (place : Token) : Token :=
  { value := name, kind := .identifier, line := place.line, column := place.column, uri := place.uri }

/-- The frame of a name, read to its end. -/
def Frame.spent (name : String) : Frame :=
  { name, unread := [] }

theorem Lexer.IsIdentifier.ofText {name : String} (h : IsIdentifier name.toList) (line : Int) (uri : String) (column : Int) :
    Token.ofText name line uri column = [{ value := name, kind := .identifier, line, column, uri }] := by
  have hstarts : Starts name.toList [] .identifier := h.starts (by simp)
  have hscan : scan line uri column false (name.toList ++ []) = _ := hstarts.scan_eq
  rw [List.append_nil, String.ofList_toList, scan_nil] at hscan
  exact hscan

/-- The body of a renaming is read as the other name. -/
theorem Table.Renames.exists_reading {t : Table} {name other : String} (h : t.Renames name other) :
    ∃ m, t.get? name = some m ∧ m.shape = .object ∧ ∀ place, relex (Paste.paste m.body) place = [.named other place] := by
  obtain ⟨m, hget, hshape, hbody⟩ := h.exists_macro
  obtain ⟨u, hu, rfl⟩ := List.map_eq_singleton_iff.mp hbody
  have hnot : u.value ≠ "##" := by
    intro hpaste
    have hidentifier := h.isIdentifier
    rw [hpaste] at hidentifier
    exact absurd hidentifier.1 (by decide)
  have hpaste : Paste.paste m.body = [u] := by
    rw [hu]
    exact Paste.pasteFrom_eq (by simpa [Paste.isOperator] using hnot) []
  refine ⟨m, hget, hshape, fun place => ?_⟩
  rw [hpaste, relex]
  exact h.isIdentifier.ofText ..

/-! ## Reading a chain -/

section

variable {e : Expander} {input rest out : List Token} {taken bound : Nat} {name : String} {names : List String} {s : Logged Expander}
  {pre : List Token → Expand (List Token)}

theorem Frame.map_name_spent (names : List String) : (names.map spent).map Frame.name = names := by
  simp [spent, Function.comp_def]

/-- Spent frames do not count as open. -/
theorem Stack.openFrames_spent (rest : List Token) (taken : Nat) (f : Frame) (names : List String) :
    ({ frames := f :: names.map Frame.spent, input := rest, taken } : Stack).openFrames ≤ 1 := by
  have hspent : (names.map Frame.spent).filter (fun f => decide (f.unread ≠ [])) = [] := by simp [Frame.spent]
  rw [Stack.openFrames, List.filter_cons, hspent]
  split <;> simp

/-- Among more names held, a name that is one of them has no macro, and any other has the one that it had. -/
theorem get?_holding_mem (h : name ∈ names) : (e.holding names).table.get? name = none := by
  rw [get?_holding, if_pos (List.mem_append_left _ h)]

theorem get?_holding_notMem (h : name ∉ names) : (e.holding names).table.get? name = e.table.get? name := by
  simp only [get?_holding, e.table.get?_eq, List.mem_append, h, false_or]

/-- The only token of the top frame is left when its name has no macro. -/
theorem turn_of_left {below : List Frame} {t : Token} (hkind : t.kind = .identifier) (hget : s.state.table.get? t.value = none) :
    turn pre { frames := { name, unread := [t] } :: below, input := rest, taken } out s =
      .next { frames := .spent name :: below, input := rest, taken } (t :: out) s := by
  simp only [turn, hkind, if_true, turnAt, replacement_none hget, Frame.spent]

/-- The only token of the top frame is replaced when its name has an object-like macro and there is room for one more frame. -/
theorem turn_of_replaced {below : List Frame} {t : Token} {m : Macro} {s' : Logged Expander} (hkind : t.kind = .identifier)
    (hget : s.state.table.get? t.value = some m) (hshape : m.shape = .object)
    (hdescend : descend t.value (({ frames := .spent name :: below, input := rest, taken } : Stack).push t.value
      (relex (Paste.paste m.body) t)) s = .ok () s') :
    turn pre { frames := { name, unread := [t] } :: below, input := rest, taken } out s =
      .next (({ frames := .spent name :: below, input := rest, taken } : Stack).push t.value (relex (Paste.paste m.body) t)) out s' := by
  rw [Frame.spent] at hdescend ⊢
  simp only [turn, hkind, if_true, turnAt, replacement_object hget hshape, hdescend]

/-- Spent frames are taken off one by one. -/
theorem rescan_spent (names : List String) (hbound : e.table.size ≤ bound)
    (h : Balanced e input { frames := names.map Frame.spent, input := rest, taken } s) :
    rescan pre bound { frames := names.map Frame.spent, input := rest, taken } out s =
      ({ input := rest, taken }, .ok out.reverse { s with state := e }) := by
  induction names generalizing s with
  | nil =>
    have hs : s = { s with state := e } := by
      rw [← show s.state = e from h.state_eq]
    rw [← hs]
    exact rescan_of_stop (by simp) rfl
  | cons name names ih =>
    have hle : ¬bound < ((name :: names).map Frame.spent).length := Nat.not_lt.mpr (h.length_frames_le.trans hbound)
    obtain ⟨henable, hbelow⟩ := h.pop { input := rest, taken }
    have hturn : turn pre { frames := (name :: names).map Frame.spent, input := rest, taken } out s =
        .next { frames := names.map Frame.spent, input := rest, taken } out
          { s with state := e.holding ((names.map Frame.spent).map Frame.name) } := by
      simp only [turn, List.map_cons, Frame.spent, henable]
    rw [rescan_of_next hle hturn]
    exact ih hbelow

/-- The frame of a name whose only token is the name that a chain leads from is read to the last name of the chain, above spent frames. The
names passed are all held then, so the last one is left when it has no macro or is one of them. The induction is on the chain. -/
theorem rescan_of_leads (names : List String) (hbound : e.table.size ≤ bound) (hceiling : e.level + 1 < e.maxLevel) {passed : List String}
    {next last : String} {place : Token} (hleads : e.table.Leads passed next last)
    (h : Balanced e input { frames := { name, unread := [.named next place] } :: names.map Frame.spent, input := rest, taken } s)
    (hnodup : (passed ++ name :: names).Nodup) (hlast : e.table.get? last = none ∨ last ∈ passed ++ name :: names) :
    rescan pre bound { frames := { name, unread := [.named next place] } :: names.map Frame.spent, input := rest, taken } [] s =
      ({ input := rest, taken }, .ok [.named last place] { s with state := e }) := by
  have hheld : s.state = e.holding (name :: names) := h.state_eq.trans (congrArg e.holding (Frame.map_name_spent (name :: names)))
  induction hleads generalizing name names s with
  | here last =>
    have hnone : s.state.table.get? last = none := by
      rw [hheld]
      by_cases hmem : last ∈ name :: names
      · exact get?_holding_mem hmem
      · rw [get?_holding_notMem hmem]
        exact hlast.resolve_right hmem
    rw [rescan_of_next (Nat.not_lt.mpr (h.length_frames_le.trans hbound)) (turn_of_left rfl hnone)]
    exact rescan_spent (name :: names) hbound (h.read { input := rest, taken } [])
  | @step passed next after last hnext hmore ih =>
    have hperm : (next :: passed ++ name :: names).Perm (passed ++ next :: name :: names) := List.perm_middle.symm
    have hnodup' : (passed ++ next :: name :: names).Nodup := hperm.nodup_iff.mp hnodup
    have hout : next ∉ name :: names := (List.nodup_cons.mp (List.nodup_append.mp hnodup').2.1).1
    obtain ⟨m, hget, hshape, hread⟩ := hnext.exists_reading
    have hfound : s.state.table.get? next = some m := by rw [hheld, get?_holding_notMem hout, hget]
    have hroom : e.level + (({ frames := (name :: names).map Frame.spent, input := rest, taken } : Stack).push next
        [.named after place]).openFrames < e.maxLevel := by
      have hopen := Stack.openFrames_spent rest taken { name := next, unread := [.named after place] } (name :: names)
      simp only [Stack.push]
      omega
    have hturn : turn pre { frames := { name, unread := [.named next place] } :: names.map Frame.spent, input := rest, taken } [] s =
        .next { frames := { name := next, unread := [.named after place] } :: (name :: names).map Frame.spent, input := rest, taken } []
          { s with state := e.holding (next :: name :: names) } := by
      have hreading : relex (Paste.paste m.body) (.named next place) = [.named after place] := hread _
      rw [← hreading]
      exact turn_of_replaced rfl hfound hshape (hreading ▸ descend_of_room hheld hroom)
    have hpush : Balanced e input (({ frames := (name :: names).map Frame.spent, input := rest, taken } : Stack).push next
        [.named after place]) { s with state := e.holding (next :: name :: names) } := by
      have hnew : ({ frames := (name :: names).map Frame.spent, input := rest, taken } : Stack).names = name :: names :=
        Frame.map_name_spent (name :: names)
      have hbelow : Balanced e input { frames := (name :: names).map Frame.spent, input := rest, taken } s :=
        h.read { input := rest, taken } []
      have hpushed := hbelow.push (by rwa [hnew]) (Table.name_of_get? hget).2 [.named after place]
      rwa [hnew] at hpushed
    rw [rescan_of_next (Nat.not_lt.mpr (h.length_frames_le.trans hbound)) hturn]
    exact ih (name :: names) hpush hnodup' (hlast.imp_right hperm.mem_iff.mp) rfl

end

/-! ## Invocations -/

/-- The name that a chain of renamings leads to is what its first name comes to, when it has no macro or is one of those passed. -/
theorem head_of_leads {tokens : List Token} {start : Nat} {head : Token} {s : Logged Expander} {passed : List String} {last : String}
    (hhead : tokens[start]? = some head) (hleads : s.state.table.Leads passed head.value last) (hne : passed ≠ [])
    (hnodup : passed.Nodup) (hlast : s.state.table.get? last = none ∨ last ∈ passed)
    (hceiling : s.state.level + 3 ≤ s.state.maxLevel) :
    Expand.head tokens start s =
      .ok (some { beyond := 0, tokens := [{ Token.named last head with generated := true }] }) s := by
  obtain ⟨hlt, hat⟩ := List.getElem?_eq_some_iff.mp hhead
  have hwindow : tokens.drop start = head :: tokens.drop (start + 1) := by
    rw [List.drop_eq_getElem_cons hlt, hat]
  generalize hname : head.value = name at hleads
  cases hleads with
  | here => exact absurd rfl hne
  | @step passed _ next _ hnext hmore =>
    obtain ⟨m, hget, hshape, hread⟩ := hnext.exists_reading
    subst hname
    have hreplaced : replacement all head { input := tokens.drop (start + 1) } { s with state := s.state.enter } =
        ({ input := tokens.drop (start + 1) }, .ok (some [.named next head]) { s with state := s.state.enter }) := by
      rw [← hread head]
      exact replacement_object hget hshape
    have hstart : Balanced s.state.enter (tokens.drop (start + 1))
        { frames := [{ name := head.value, unread := [.named next head] }], input := tokens.drop (start + 1) }
        { s with state := s.state.enter.holding [head.value] } :=
      (Balanced.start { s with state := s.state.enter } _).push List.not_mem_nil (Table.name_of_get? hget).2 _
    have hroom : s.state.enter.level + 1 < s.state.enter.maxLevel := by
      simp only [Expander.enter]
      omega
    have hperm : (head.value :: passed).Perm (passed ++ [head.value]) := (List.perm_append_singleton head.value passed).symm
    rw [head_eq_headWithin_all]
    exact headWithin_of_rescan hwindow hceiling hreplaced (rescan_of_leads [] (Nat.le_refl _) hroom hmore hstart
      (hperm.nodup_iff.mp hnodup) (hlast.imp_right hperm.mem_iff.mp))

/-- A chain of renamings of different names, however long, comes to its last name when that has no macro. When the last name is in turn
renamed to the first, the first name comes to itself. Three levels below the ceiling are enough, and nothing is told or left disabled. -/
theorem head_renamed {tokens : List Token} {start : Nat} {head : Token} {s : Logged Expander} {passed : List String} {last : String}
    (hhead : tokens[start]? = some head) (hleads : s.state.table.Leads passed head.value last) (hne : passed ≠ [])
    (hnodup : (passed ++ [last]).Nodup) (hceiling : s.state.level + 3 ≤ s.state.maxLevel) :
    (s.state.table.get? last = none →
      Expand.head tokens start s =
        .ok (some { beyond := 0, tokens := [{ Token.named last head with generated := true }] }) s) ∧
    (s.state.table.Renames last head.value →
      Expand.head tokens start s =
        .ok (some { beyond := 0, tokens := [{ Token.named head.value head with generated := true }] }) s) := by
  constructor
  · intro hnone
    exact head_of_leads hhead hleads hne (List.nodup_append.mp hnodup).1 (.inl hnone) hceiling
  · intro hclosing
    have hfirst : head.value ∈ passed := hleads.mem_of_ne_nil hne
    exact head_of_leads hhead (hleads.snoc hclosing) (by simp) hnodup (.inr (List.mem_append_left _ hfirst)) hceiling

/-- An expander with an object-like macro for each name of `links`, whose body is the other name, and a low ceiling. -/
def Expander.linked (links : List (String × String)) : Expander where
  table := { user := links.map fun (name, other) => (name, { name, shape := .object, body := [.word other] }) }
  maxLevel := 3

theorem Table.renames_linked {links : List (String × String)} {name other : String}
    (hget : (Expander.linked links).table.get? name = some { name, shape := .object, body := [.word other] })
    (hother : Lexer.IsIdentifier other.toList) : (Expander.linked links).table.Renames name other :=
  ⟨⟨_, hget, rfl, rfl⟩, hother⟩

theorem head_renamed_letters :
    let links := [("A", "B"), ("B", "C"), ("C", "D"), ("D", "E")]
    (∃ ex, Expand.head [.word "A"] 0 { state := .linked links } = .ok (some ex) { state := .linked links } ∧
      ex.consumed = 1 ∧ ex.tokens.map Token.content = [("E", .identifier)]) ∧
    ∃ ex,
      Expand.head [.word "A"] 0 { state := .linked (("E", "A") :: links) } = .ok (some ex) { state := .linked (("E", "A") :: links) } ∧
      ex.consumed = 1 ∧ ex.tokens.map Token.content = [("A", .identifier)] := by
  intro links
  have hidentifier (name : String) (h : name ∈ ["A", "B", "C", "D", "E"]) : Lexer.IsIdentifier name.toList := by
    simp only [List.mem_cons, List.not_mem_nil, or_false] at h
    rcases h with rfl | rfl | rfl | rfl | rfl <;> exact ⟨by decide, by decide, List.all_eq_true.mp (by decide)⟩
  have hleads (e : Expander) (hlinks : ∀ link ∈ links, e.table.Renames link.1 link.2) : e.table.Leads ["A", "B", "C", "D"] "A" "E" :=
    .step (hlinks ("A", "B") (by simp [links])) <| .step (hlinks ("B", "C") (by simp [links])) <|
    .step (hlinks ("C", "D") (by simp [links])) <| .step (hlinks ("D", "E") (by simp [links])) <| .here "E"
  have hopen := hleads (.linked links) fun link hlink =>
    Table.renames_linked (by revert link; decide) (hidentifier link.2 (by revert link; decide))
  have hclosed := hleads (.linked (("E", "A") :: links)) fun link hlink =>
    Table.renames_linked (by revert link; decide) (hidentifier link.2 (by revert link; decide))
  have hclosing : (Expander.linked (("E", "A") :: links)).table.Renames "E" "A" :=
    Table.renames_linked rfl (hidentifier "A" (by simp))
  constructor
  · exact ⟨_, (head_renamed (s := { state := .linked links }) rfl hopen (by decide) (by decide) (by decide)).1 rfl, rfl, rfl⟩
  · exact ⟨_, (head_renamed (s := { state := .linked (("E", "A") :: links) }) rfl hclosed (by decide) (by decide) (by decide)).2 hclosing,
      rfl, rfl⟩

end Prepass
