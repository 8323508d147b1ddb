import Mathlib
import Prepass.Proofs.Macro.Ending
import Prepass.Proofs.Token.Content

/-!
# Object-like expansion

The full expansion of an object-like macro is defined by recursion: its body is read, and every name in it that has a macro is fully
expanded in turn, unless it is one of the names the expansion is inside of (`Table.fullExpansion`). The expander keeps a stack of frames
and a list of disabled names instead. At every turn of reading, the frames from one downward are what its tokens are inside of, so
the tokens that are left together with the full expansions of those still to be read (`pending`) say the same before and after
the turn. Hence expanding an invocation gives the full expansion (`head_eq_fullExpansion`), as long as nesting is not too
deep, and it cannot be too deep when the ceiling is above the number of macros.
-/

namespace Prepass

open Expand

/-! ## The full expansion -/

namespace Table

/-- The macro of a name, whether the name is disabled or not. -/
def definition? (t : Table) (name : String) : Option Macro :=
  { t with disabled := [] }.get? name

/-- The names with a macro, disabled or not, each once. -/
def macroNames (t : Table) : List String :=
  t.names.eraseDups.filter fun name => (t.definition? name).isSome

/-- The tokens that the body of the macro of a name is read as: with its paste operators carried out, and lexed again. -/
def reading (t : Table) (name : String) : List Token :=
  match t.definition? name with
  | some m => Token.ofText (Token.spell (Paste.paste m.body))
  | none => []

/-- A name has its macro while it is not disabled. -/
theorem get?_eq (t : Table) (name : String) : t.get? name = if name ∈ t.disabled then none else t.definition? name := by
  simp [get?, definition?, isDisabled]

/-- The macro of a name is in one of the layers. -/
theorem mem_of_definition? {t : Table} {name : String} {m : Macro} (h : t.definition? name = some m) :
    (name, m) ∈ t.predefined ++ t.user :=
  mem_of_get? (t := { t with disabled := [] }) h

/-- The names with a macro are those that a macro is found for. -/
theorem mem_macroNames {t : Table} {name : String} : name ∈ t.macroNames ↔ (t.definition? name).isSome = true := by
  simp only [macroNames, List.mem_filter, List.mem_eraseDups, and_iff_right_iff_imp]
  intro h
  obtain ⟨m, hm⟩ := Option.isSome_iff_exists.mp h
  exact (name_of_get? hm).2

/-- Inside one more macro there are fewer macros outside. -/
theorem length_outside_lt {t : Table} {inside : List String} {name : String} (hdefined : (t.definition? name).isSome = true)
    (houtside : name ∉ inside) :
    (t.macroNames.filter (· ∉ name :: inside)).length < (t.macroNames.filter (· ∉ inside)).length := by
  have hsplit : t.macroNames.filter (· ∉ name :: inside) = (t.macroNames.filter (· ∉ inside)).filter (· ≠ name) := by
    rw [List.filter_filter]
    congr
    funext other
    simp
  rw [hsplit, List.length_filter_lt_length_iff_exists]
  refine ⟨name, ?_, by simp⟩
  simpa [houtside] using mem_macroNames.mpr hdefined

/-- The full expansion of the macro of a name, inside macros of the given names: the tokens of its body, where a name that has a macro
and is not among those given stands for its own full expansion, inside that macro as well. -/
def fullExpansion (t : Table) (inside : List String) (name : String) : List Token :=
  (t.reading name).flatMap fun u =>
    if _h : u.kind = .identifier ∧ (t.definition? u.value).isSome = true ∧ u.value ∉ inside then
      fullExpansion t (u.value :: inside) u.value
    else [u]
termination_by (t.macroNames.filter (· ∉ inside)).length
decreasing_by exact length_outside_lt _h.2.1 _h.2.2

/-- What a token inside macros of the given names stands for: the full expansion of its macro, or itself. -/
def unfolded (t : Table) (inside : List String) (u : Token) : List Token :=
  if u.kind = .identifier ∧ (t.definition? u.value).isSome = true ∧ u.value ∉ inside then t.fullExpansion (u.value :: inside) u.value
  else [u]

/-- A full expansion is the reading of the body, with each token unfolded inside the macro. -/
theorem fullExpansion_eq (t : Table) (inside : List String) (name : String) :
    t.fullExpansion inside name = (t.reading name).flatMap (t.unfolded inside) := by
  rw [fullExpansion]
  rfl

/-- Tokens that say the same stand for tokens that say the same. -/
theorem content_unfolded {t : Table} {u u' : Token} (inside : List String) (h : u.content = u'.content) :
    (t.unfolded inside u).map Token.content = (t.unfolded inside u').map Token.content := by
  unfold unfolded
  rw [Token.value_of_content h, Token.kind_of_content h]
  split
  · rfl
  · simpa using h

/-- Tokens that say the same stand for the same. -/
theorem content_unfolded_all {t : Table} {us us' : List Token} (inside : List String)
    (h : us.map Token.content = us'.map Token.content) :
    (us.flatMap (t.unfolded inside)).map Token.content = (us'.flatMap (t.unfolded inside)).map Token.content := by
  induction us generalizing us' with
  | nil =>
    cases us' with
    | nil => rfl
    | cons _ _ => nomatch h
  | cons u us ih =>
    cases us' with
    | nil => nomatch h
    | cons u' us' =>
      simp only [List.map_cons, List.cons.injEq] at h
      simp only [List.flatMap_cons, List.map_append, content_unfolded inside h.1, ih h.2]

end Table

/-! ## What is pending -/

/-- What the tokens still to be read in frames stand for: each is inside the macros of its frame and of the frames below. -/
def pending (t : Table) : List Frame → List Token
  | [] => []
  | f :: below => f.unread.flatMap (t.unfolded (f.name :: below.map Frame.name ++ t.disabled)) ++ pending t below

/-- How reading stands while object-like macros are expanded above a frame of the macro `bottom`: the input is left alone, and nothing
is told. -/
structure Unrolling (e : Expander) (input : List Token) (bottom : String) (taken : Nat) (told : List Notice) (stack : Stack)
    (s : Logged Expander) : Prop where
  balanced : Balanced e input stack s
  rooted : ∀ name ∈ stack.names.getLast?, name = bottom
  named : stack.names ⊆ e.table.macroNames
  taken_eq : stack.taken = taken
  latest_eq : s.latest = told

/-- What a turn of such reading is to come to: it goes on, with what is left so far and what is pending saying `final` together; it
stops with tokens that say `final`; or it stops because nesting is too deep, which takes a low ceiling. -/
def Expand.Turn.Unrolls (e : Expander) (input : List Token) (bottom : String) (taken : Nat) (told : List Notice)
    (final : List (String × Token.Kind)) : Turn → Prop
  | .next stack out s =>
    Unrolling e input bottom taken told stack s ∧ (out.reverse ++ pending e.table stack.frames).map Token.content = final
  | .stop stack (.ok tokens s) =>
    stack.frames = [] ∧ stack.taken = taken ∧ s = { state := e, latest := told } ∧ tokens.map Token.content = final
  | .stop _ (.error err s) => err = .tooDeep ∧ s.latest = told ∧ e.maxLevel ≤ e.level + e.table.macroNames.length

section

variable {e : Expander} {input out : List Token} {bottom : String} {taken : Nat} {told : List Notice}
  {final : List (String × Token.Kind)} {stack : Stack} {s : Logged Expander} {pre : List Token → Expand (List Token)}

/-- There are never more frames than macros. -/
theorem Unrolling.length_frames_le (h : Unrolling e input bottom taken told stack s) :
    stack.frames.length ≤ e.table.macroNames.length := by
  have hle := h.balanced.nodup.length_le_of_subset h.named
  simpa [Stack.names] using hle

/-- The macro at the bottom is on every stack that has frames. -/
theorem Unrolling.bottom_mem (h : Unrolling e input bottom taken told stack s) (hframes : stack.frames ≠ []) :
    bottom ∈ stack.names := by
  have hnames : stack.names ≠ [] := by simpa [Stack.names] using hframes
  have hlast := List.getLast?_eq_some_getLast hnames
  rw [← h.rooted _ hlast]
  exact List.getLast_mem hnames

/-- A name that is held has no macro, and any other has the one it had. -/
theorem get?_holding (e : Expander) (names : List String) (name : String) :
    (e.holding names).table.get? name = if name ∈ names ++ e.table.disabled then none else e.table.definition? name :=
  Table.get?_eq _ name

/-- An object-like macro is replaced by its body without a look at the stack. -/
theorem replacement_object {name : Token} {m : Macro} (hget : s.state.table.get? name.value = some m) (hshape : m.shape = .object) :
    replacement pre name stack s = (stack, .ok (some (relex (Paste.paste m.body) name)) s) := by
  have hparams : m.params? = none := by simp [Macro.params?, hshape]
  simp only [replacement, hget, hparams]

/-- A name without a macro has no replacement. -/
theorem replacement_none {name : Token} (hget : s.state.table.get? name.value = none) :
    replacement pre name stack s = (stack, .ok none s) := by
  simp only [replacement, hget]

/-- A frame may be put on top for a name that is not disabled, unless nesting is then too deep. -/
theorem descend_unrolls (h : Unrolling e input bottom taken told stack s) {name : String} (hdefined : name ∈ e.table.macroNames)
    (hout : name ∉ stack.names) (hroot : stack.frames = [] → name = bottom) (tokens : List Token) :
    (∃ s', descend name (stack.push name tokens) s = .ok () s' ∧ Unrolling e input bottom taken told (stack.push name tokens) s') ∨
    ∃ s', descend name (stack.push name tokens) s = .error .tooDeep s' ∧ s'.latest = told ∧
      e.maxLevel ≤ e.level + e.table.macroNames.length := by
  have hdef : name ∈ e.table.names := by
    obtain ⟨m, hm⟩ := Option.isSome_iff_exists.mp (Table.mem_macroNames.mp hdefined)
    exact (Table.name_of_get? hm).2
  have hpush : Unrolling e input bottom taken told (stack.push name tokens) { s with state := e.holding (name :: stack.names) } := by
    refine ⟨h.balanced.push hout hdef tokens, ?_, ?_, h.taken_eq, h.latest_eq⟩
    · intro last hlast
      cases hframes : stack.frames with
      | nil =>
        simp only [Stack.names, Stack.push, hframes, List.map_cons, List.map_nil, List.getLast?_singleton, Option.mem_some_iff] at hlast
        rw [← hlast]
        exact hroot hframes
      | cons f below =>
        refine h.rooted last ?_
        simpa [Stack.names, Stack.push, hframes] using hlast
    · exact List.cons_subset.mpr ⟨hdefined, h.named⟩
  unfold descend
  rw [disable_holding name h.balanced.state_eq]
  dsimp only
  split
  · rename_i hdeep
    refine .inr ⟨_, rfl, h.latest_eq, ?_⟩
    have hopen : (stack.push name tokens).openFrames ≤ (stack.push name tokens).frames.length := List.length_filter_le _ _
    have hle := hpush.length_frames_le
    have hceiling : e.maxLevel ≤ e.level + (stack.push name tokens).openFrames := of_decide_eq_true hdeep
    omega
  · exact .inl ⟨_, rfl, hpush⟩

/-- The turn at an identifier: it is left when it is one of the names it is inside of or has no macro, and else its macro is put on
the stack. -/
theorem turnAt_unrolls (hobject : ∀ name m, name ≠ bottom → e.table.definition? name = some m → m.shape = .object) {u : Token}
    (hkind : u.kind = .identifier) (hframes : stack.frames ≠ []) (h : Unrolling e input bottom taken told stack s)
    (hfinal : (out.reverse ++ e.table.unfolded (stack.names ++ e.table.disabled) u ++ pending e.table stack.frames).map
      Token.content = final) : (turnAt pre u stack out s).Unrolls e input bottom taken told final := by
  have hget : s.state.table.get? u.value = if u.value ∈ stack.names ++ e.table.disabled then none else e.table.definition? u.value := by
    rw [h.balanced.state_eq, get?_holding]
  unfold turnAt
  cases hm : s.state.table.get? u.value with
  | none =>
    have hleft : ¬(u.kind = .identifier ∧ (e.table.definition? u.value).isSome = true ∧ u.value ∉ stack.names ++ e.table.disabled) := by
      rintro ⟨-, hsome, hout⟩
      rw [hm, if_neg hout] at hget
      simp [← hget] at hsome
    rw [replacement_none hm]
    refine ⟨h, ?_⟩
    rw [Table.unfolded, if_neg hleft] at hfinal
    simpa using hfinal
  | some m =>
    have hout : u.value ∉ stack.names ++ e.table.disabled := by
      intro hmem
      rw [hm, if_pos hmem] at hget
      cases hget
    have hdefined : e.table.definition? u.value = some m := by
      rw [← hm, hget, if_neg hout]
    have hnames : u.value ∉ stack.names := fun hmem => hout (List.mem_append_left _ hmem)
    have hother : u.value ≠ bottom := by
      rintro rfl
      exact hnames (h.bottom_mem hframes)
    have hsome : (e.table.definition? u.value).isSome = true := by simp [hdefined]
    rw [replacement_object hm (hobject _ _ hother hdefined)]
    dsimp only
    rcases descend_unrolls h (Table.mem_macroNames.mpr hsome) hnames (absurd · hframes) (relex (Paste.paste m.body) u) with
      ⟨s', hd, hpush⟩ | ⟨s', hd, hdeep⟩
    · rw [hd]
      refine ⟨hpush, ?_⟩
      -- what the name stands for is what the frame of its macro leaves pending
      have hread : (relex (Paste.paste m.body) u).map Token.content = (e.table.reading u.value).map Token.content := by
        simp only [Table.reading, hdefined]
        exact Token.content_ofText ..
      have hsame := Table.content_unfolded_all (t := e.table) (u.value :: (stack.names ++ e.table.disabled)) hread
      rw [← hfinal, Table.unfolded, if_pos ⟨hkind, hsome, hout⟩, Table.fullExpansion_eq]
      simp only [pending, Stack.push, List.map_append, List.append_assoc]
      rw [← hsame]
      rfl
    · rw [hd]
      exact ⟨rfl, hdeep⟩

/-- A turn of reading leaves what is left so far and what is pending saying the same. -/
theorem turn_unrolls (hobject : ∀ name m, name ≠ bottom → e.table.definition? name = some m → m.shape = .object)
    (h : Unrolling e input bottom taken told stack s)
    (hfinal : (out.reverse ++ pending e.table stack.frames).map Token.content = final) :
    (turn pre stack out s).Unrolls e input bottom taken told final := by
  obtain ⟨frames, rest, stackTaken⟩ := stack
  unfold turn
  split
  · rename_i hframes
    simp only at hframes
    subst hframes
    have hstate := h.balanced.state_eq
    refine ⟨rfl, h.taken_eq, ?_, by simpa [pending] using hfinal⟩
    obtain ⟨state, latest⟩ := s
    simp only [Stack.names, List.map_nil] at hstate
    rw [hstate, ← h.latest_eq]
    rfl
  · rename_i name below hframes
    simp only at hframes
    subst hframes
    obtain ⟨hen, hbal⟩ := Balanced.pop { input := rest, taken := stackTaken } h.balanced
    rw [hen]
    refine ⟨⟨hbal, ?_, (List.cons_subset.mp h.named).2, h.taken_eq, h.latest_eq⟩, by simpa [pending] using hfinal⟩
    intro last hlast
    refine h.rooted last ?_
    cases below with
    | nil => simp [Stack.names] at hlast
    | cons f below => simpa [Stack.names] using hlast
  · rename_i name t unread below hframes
    simp only at hframes
    subst hframes
    have hread : Unrolling e input bottom taken told { frames := { name, unread } :: below, input := rest, taken := stackTaken } s :=
      ⟨Balanced.read { input := rest, taken := stackTaken } unread h.balanced, h.rooted, h.named, h.taken_eq, h.latest_eq⟩
    split
    · rename_i hkind
      refine turnAt_unrolls hobject hkind (by simp) hread ?_
      simpa [pending, Stack.names] using hfinal
    · rename_i hkind
      refine ⟨hread, ?_⟩
      have hself : e.table.unfolded (name :: (below.map Frame.name ++ e.table.disabled)) t = [t] := by
        rw [Table.unfolded, if_neg (fun hall => hkind hall.1)]
      simpa [pending, hself] using hfinal

/-- Reading to the end leaves what was pending, or nesting is too deep: what a turn keeps, all turns keep. -/
theorem rescan_unrolls (hobject : ∀ name m, name ≠ bottom → e.table.definition? name = some m → m.shape = .object) {bound : Nat}
    (hbound : e.table.size ≤ bound) (h : Unrolling e input bottom taken told stack s)
    (hfinal : (out.reverse ++ pending e.table stack.frames).map Token.content = final) :
    (Turn.stop (rescan pre bound stack out s).1 (rescan pre bound stack out s).2).Unrolls e input bottom taken told final := by
  fun_induction rescan pre bound stack out s with
  | case1 stack out s htoo =>
    have := h.balanced.length_frames_le
    omega
  | case2 stack out s _ stack' result hturn =>
    have hkeep : (turn pre stack out s).Unrolls e input bottom taken told final := turn_unrolls hobject h hfinal
    rwa [hturn] at hkeep
  | case3 stack out s _ stack' out' s' hturn ih =>
    have hkeep : (turn pre stack out s).Unrolls e input bottom taken told final := turn_unrolls hobject h hfinal
    rw [hturn] at hkeep
    exact ih hkeep.1 hkeep.2

/-! ## Invocations -/

/-- What has a replacement has a macro. -/
theorem get?_of_replacement {name : Token} {body : List Token} {stack' : Stack} {s' : Logged Expander}
    (h : replacement pre name stack s = (stack', .ok (some body) s')) : (s.state.table.get? name.value).isSome = true := by
  unfold replacement at h
  split at h
  · cases h
  · rename_i hget
    rw [hget]
    rfl

/-- A replacement without frames is put on the stack and read to its end when every other macro is object-like: it comes to what its
tokens stand for inside the macro, or nesting is too deep. -/
theorem run_unrolls {body : List Token} {head : Token} {s₁ : Logged Expander}
    (hpre : ∀ tokens, Restores [.tooDeep, .nothingToDrop] (pre tokens))
    (hobject : ∀ name m, name ≠ head.value → s.state.table.definition? name = some m → m.shape = .object)
    (hshallow : isTooDeep s.state { input } = false)
    (hreplaced : replacement pre head { input } s = (stack, .ok (some body) s₁)) (hframes : stack.frames = []) :
    (∃ stack' tokens, run pre head input s = (stack', .ok (some tokens) { s₁ with state := s.state }) ∧ stack'.frames = [] ∧
      stack'.taken = stack.taken ∧ tokens.map Token.content =
        (body.flatMap (s.state.table.unfolded (head.value :: s.state.table.disabled))).map Token.content) ∨
    (∃ stack' s', run pre head input s = (stack', .error .tooDeep s') ∧
      s.state.maxLevel ≤ s.state.level + s.state.table.macroNames.length) := by
  obtain ⟨hbal, -, -⟩ := replacement_balanced (by simp) hpre (Balanced.start s input) hreplaced
  have hget := get?_of_replacement hreplaced
  have hdefined : head.value ∈ s.state.table.macroNames := by
    rw [Table.get?_eq] at hget
    split at hget
    · cases hget
    · exact Table.mem_macroNames.mpr hget
  have hnone : stack.names = [] := by simp [Stack.names, hframes]
  have hstart : Unrolling s.state input head.value stack.taken s₁.latest stack s₁ :=
    ⟨hbal, by simp [hnone], by simp [hnone], rfl, rfl⟩
  rcases descend_unrolls hstart hdefined (by simp [hnone]) (fun _ => rfl) body with ⟨s₂, hd, hpush⟩ | ⟨s₂, hd, -, hdeep⟩
  · have hread : (Turn.stop _ (rescan pre s₂.state.table.size (stack.push head.value body) [] s₂).2).Unrolls _ _ _ _ _ _ :=
      rescan_unrolls hobject hpush.balanced.size_le hpush rfl
    cases hr : rescan pre s₂.state.table.size (stack.push head.value body) [] s₂ with
    | mk stack' result =>
      rw [hr] at hread
      cases result with
      | ok tokens s₃ =>
        obtain ⟨hempty, htaken, rfl, hcontent⟩ := hread
        refine .inl ⟨stack', tokens, ?_, hempty, htaken, ?_⟩
        · simp only [run, hshallow, hreplaced, hd, hr]
          rfl
        · rw [hcontent]
          simp [pending, Stack.push, hframes]
      | error err s₃ =>
        obtain ⟨rfl, -, hdeep⟩ := hread
        refine .inr ⟨stack', s₃, ?_, hdeep⟩
        simp only [run, hshallow, hreplaced, hd, hr]
        rfl
  · refine .inr ⟨stack.push head.value body, s₂, ?_, hdeep⟩
    simp only [run, hshallow, hreplaced, hd]
    rfl

/-- The same for an invocation at a place, where nesting too deeply is told. -/
theorem headWithin_unrolls {tokens body : List Token} {start : Nat} {head : Token} {s₁ : Logged Expander}
    (hpre : ∀ tokens, Restores [.tooDeep, .nothingToDrop] (pre tokens))
    (hobject : ∀ name m, name ≠ head.value → s.state.table.definition? name = some m → m.shape = .object)
    (hwindow : tokens.drop start = head :: input) (hshallow : s.state.level + 1 < s.state.maxLevel)
    (hreplaced : replacement pre head { input } { s with state := s.state.enter } = (stack, .ok (some body) s₁))
    (hframes : stack.frames = []) :
    (∃ ex, headWithin pre tokens start s = .ok (some ex) { s₁ with state := s.state } ∧ ex.beyond = stack.taken ∧
      ex.tokens.map Token.content =
        (body.flatMap (s.state.table.unfolded (head.value :: s.state.table.disabled))).map Token.content) ∨
    (∃ s', headWithin pre tokens start s = .ok none s' ∧ Notice.tooDeep head.value s.state.maxLevel ∈ s'.latest ∧
      s.state.maxLevel ≤ s.state.level + 1 + s.state.table.macroNames.length) := by
  have hget : (s.state.table.get? head.value).isSome = true := get?_of_replacement (s := { s with state := s.state.enter }) hreplaced
  have hstart : isTooDeep s.state.enter { input } = false := by
    simpa [isTooDeep, Stack.openFrames, Expander.enter] using hshallow
  have hhead (stack' : Stack) (result : Outcome (Option (List Token)))
      (hrun : run pre head input { s with state := s.state.enter } = (stack', result)) :
      headWithin pre tokens start s = settle head stack' result := by
    simp only [headWithin, hwindow, Table.contains, hget, if_true, hrun]
  rcases run_unrolls (s := { s with state := s.state.enter }) hpre hobject hstart hreplaced hframes with
    ⟨stack', found, hrun, hempty, htaken, hcontent⟩ | ⟨stack', s', hrun, hdeep⟩
  · refine .inl ⟨{ beyond := stack'.taken, tokens := Token.relocate found head }, ?_, htaken, ?_⟩
    · rw [hhead _ _ hrun]
      simp [settle, unwind, hempty, enableAll]
    · rw [Token.content_relocate]
      exact hcontent
  · obtain ⟨hbal, -⟩ := run_balanced (by simp) (by simp) hpre head input { s with state := s.state.enter } hrun
    have hnoted : Balanced s.state.enter input stack' (s'.note (.tooDeep head.value s'.state.maxLevel)) := hbal.of_state_eq rfl
    have hmax : s'.state.maxLevel = s.state.maxLevel := by
      rw [show s'.state = _ from hbal.state_eq]
      rfl
    refine .inr ⟨{ s'.note (.tooDeep head.value s'.state.maxLevel) with state := s.state }, ?_, ?_, hdeep⟩
    · rw [hhead _ _ hrun]
      simp only [settle, hnoted.unwind, Expander.leave_enter]
    · simp [Logged.note, hmax]

end

/-- On a table whose macros are all object-like, with whatever names disabled, and below a ceiling of at least two more than there are
macros, the invocation of an enabled name takes up the name alone and comes to the full expansion of its macro, inside the names that are
disabled and itself. The expander is left as it was, and nothing is told. -/
theorem head_eq_fullExpansion {tokens : List Token} {start : Nat} {head : Token} {s : Logged Expander}
    (hobject : ∀ name m, s.state.table.definition? name = some m → m.shape = .object) (hlevel : s.state.level = 0)
    (hceiling : s.state.table.macroNames.length + 2 ≤ s.state.maxLevel) (hhead : tokens[start]? = some head)
    (henabled : s.state.table.contains head.value = true) :
    ∃ ex, Expand.head tokens start s = .ok (some ex) s ∧ ex.consumed = 1 ∧
      ex.tokens.map Token.content =
        (s.state.table.fullExpansion (head.value :: s.state.table.disabled) head.value).map Token.content := by
  obtain ⟨m, hget⟩ := Option.isSome_iff_exists.mp henabled
  have hdefined : s.state.table.definition? head.value = some m := by
    rw [Table.get?_eq] at hget
    split at hget
    · cases hget
    · exact hget
  have hpos : 0 < s.state.table.macroNames.length :=
    List.length_pos_of_mem (Table.mem_macroNames.mpr (by rw [hdefined]; rfl))
  obtain ⟨hlt, hat⟩ := List.getElem?_eq_some_iff.mp hhead
  have hwindow : tokens.drop start = head :: tokens.drop (start + 1) := by
    rw [List.drop_eq_getElem_cons hlt, hat]
  have hreplaced : replacement all head { input := tokens.drop (start + 1) } { s with state := s.state.enter } = _ :=
    replacement_object hget (hobject _ _ hdefined)
  have hread : (relex (Paste.paste m.body) head).map Token.content = (s.state.table.reading head.value).map Token.content := by
    simp only [Table.reading, hdefined]
    exact Token.content_ofText ..
  rw [head_eq_headWithin_all]
  rcases headWithin_unrolls restores_all_or_deep (fun name m _ => hobject name m) hwindow (by omega) hreplaced rfl with
    ⟨ex, hex, hbeyond, hcontent⟩ | ⟨s', -, -, hdeep⟩
  · refine ⟨ex, hex, ?_, ?_⟩
    · simpa [Expansion.consumed] using hbeyond
    · rw [hcontent, Table.fullExpansion_eq, Table.content_unfolded_all _ hread]
  · omega

/-- Macros that name each other, one of them disabled. -/
def Table.entwined : Table :=
  { user := [("A", { name := "A", shape := .object, body := Token.ofText "B + C" }),
      ("B", { name := "B", shape := .object, body := Token.ofText "A ## 1 B C A" }),
      ("C", { name := "C", shape := .object, body := Token.ofText "A" })]
    disabled := ["C"] }

/-- Where all macros in both layers are object-like, so is every macro that is found. -/
theorem Table.object_of_layers {t : Table} (h : ∀ entry ∈ t.predefined ++ t.user, entry.2.shape = .object) (name : String) (m : Macro)
    (hm : t.definition? name = some m) : m.shape = .object :=
  h _ (mem_of_definition? hm)

/-- The macros name each other and one is disabled inside of itself, and still the result is the full expansion. -/
theorem head_eq_fullExpansion_entwined :
    ∃ ex, Expand.head [{ value := "A", kind := .identifier }] 0 { state := { table := .entwined } } =
        .ok (some ex) { state := { table := .entwined } } ∧ ex.consumed = 1 ∧
      ex.tokens.map Token.content = [("A1", .identifier), ("B", .identifier), ("C", .identifier), ("A", .identifier),
        ("+", .punctuator), ("C", .identifier)] := by
  have hexpansion : (Table.entwined.fullExpansion ["A", "C"] "A").map Token.content = [("A1", .identifier), ("B", .identifier),
      ("C", .identifier), ("A", .identifier), ("+", .punctuator), ("C", .identifier)] := by cbv
  have hobject : ∀ name m, Table.entwined.definition? name = some m → m.shape = .object := Table.object_of_layers (by decide)
  have hceiling : (Table.entwined.macroNames.length + 2 : Int) ≤ 200 := by decide
  have hhead : ([{ value := "A", kind := .identifier }] : List Token)[0]? = some { value := "A", kind := .identifier } := rfl
  have henabled : Table.entwined.contains "A" = true := by decide
  rw [← hexpansion]
  exact head_eq_fullExpansion (s := { state := { table := .entwined } }) hobject rfl hceiling hhead henabled

end Prepass
