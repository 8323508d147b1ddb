import Mathlib
import Prepass.Proofs.Macro.Invocation

/-!
# Function-like expansion

The arguments of a function-like macro are read as texts, joined, lexed, expanded, spelled again and put in place of the parameters, and the
whole is spelled and lexed once more before it is read for further macros. Where the body has no operators and no name has an enabled
macro, except that of the macro itself in its body, all this comes to replacing each parameter by the tokens of its
argument (`head_eq_substituted`). A token that is put in place holds the spelling of the tokens that its parameter stands for, so the whole
is spelled as those tokens are (`Token.Hold.spell_eq`) and lexed as they were; and what has no name of an enabled macro is left as it is,
both in an argument (`all_eq_self`) and in a replacement (`rescan_of_inert`).
-/

namespace Prepass

open Expand

/-! ## Arguments in place -/

namespace Token

/-- The spelling of tokens one after another has a space between the spellings. -/
theorem spell_append {ts us : List Token} (hts : ts ≠ []) (hus : us ≠ []) : spell (ts ++ us) = spell ts ++ " " ++ spell us := by
  induction ts with
  | nil => exact absurd rfl hts
  | cons t rest ih =>
    cases rest with
    | nil =>
      obtain ⟨u, more, rfl⟩ := List.exists_cons_of_ne_nil hus
      rfl
    | cons u rest =>
      have hmore := ih (List.cons_ne_nil u rest)
      simp only [spell, List.cons_append, List.map_cons, Text.join] at hmore ⊢
      rw [hmore]
      simp only [String.append_assoc]

/-- Tokens that hold the spellings of groups of tokens, one group after another. None of them is a paste operator. -/
inductive Hold : List Token → List Token → Prop
  | nil : Hold [] []
  | cons {t : Token} {ts us vs : List Token} (hne : us ≠ []) (hvalue : t.value = spell us) (hpaste : spell us ≠ "##") (h : Hold ts vs) :
    Hold (t :: ts) (us ++ vs)

namespace Hold

variable {t : Token} {ts ts' us us' : List Token}

/-- A token that has the spelling of a group as its value holds the group. -/
theorem single (hne : us ≠ []) (hvalue : t.value = spell us) (hpaste : spell us ≠ "##") : Hold [t] us := by
  have h := Hold.cons hne hvalue hpaste .nil
  rwa [List.append_nil] at h

/-- Tokens that hold groups do so one after another. -/
theorem append (h : Hold ts us) (h' : Hold ts' us') : Hold (ts ++ ts') (us ++ us') := by
  induction h with
  | nil => exact h'
  | cons hne hvalue hpaste _ ih =>
    rw [List.append_assoc]
    exact .cons hne hvalue hpaste ih

/-- What tokens hold is spelled as they are. -/
theorem spell_eq (h : Hold ts us) : spell ts = spell us := by
  induction h with
  | nil => rfl
  | @cons t ts us vs hne hvalue hpaste h ih =>
    cases h with
    | nil =>
      rw [List.append_nil, ← hvalue]
      rfl
    | cons hne' =>
      rw [spell_append hne (by simp [hne']), ← hvalue, ← ih]
      rfl

/-- Nothing is pasted where no token is a paste operator. -/
theorem paste_eq (h : Hold ts us) : Paste.paste ts = ts := by
  refine Paste.pasteFrom_eq (fun t ht => decide_eq_false ?_) []
  induction h with
  | nil => cases ht
  | cons _ hvalue hpaste _ ih =>
    rcases List.mem_cons.mp ht with rfl | ht
    · rwa [hvalue]
    · exact ih ht

end Hold

end Token

/-! ## Names without macros -/

/-- A token that is not the name of an enabled macro. -/
def Token.Inert (table : Table) (t : Token) : Prop :=
  t.kind = .identifier → table.contains t.value = false

/-- While a name is disabled, it is not the name of an enabled macro. -/
theorem Token.Inert.holding {e : Expander} {name : String} {t : Token} (h : t.value ≠ name → t.Inert e.table) :
    t.Inert (e.holding [name]).table := by
  intro hkind
  rw [Table.contains, get?_holding]
  by_cases hname : t.value = name
  · simp [hname]
  · have hnone := h hname hkind
    rw [Table.contains, Table.get?_eq] at hnone
    simpa [hname] using hnone

/-- For each of some tokens there is one among the others that says the same. -/
theorem SaySame.exists_of_mem {t : Token} {ts ts' : List Token} (h : SaySame ts ts') (ht : t ∈ ts) : ∃ t' ∈ ts', t'.content = t.content :=
  List.mem_map.mp (h.map_eq ▸ List.mem_map_of_mem ht)

/-- Tokens that say the same as inert ones are inert. -/
theorem SaySame.inert {ts ts' : List Token} (h : SaySame ts ts') {table : Table} (hinert : ∀ t ∈ ts', t.Inert table) :
    ∀ t ∈ ts, t.Inert table := by
  intro t ht hkind
  obtain ⟨t', ht', hcontent⟩ := h.exists_of_mem ht
  rw [← Token.kind_of_content hcontent] at hkind
  rw [← Token.value_of_content hcontent]
  exact hinert t' ht' hkind

section

variable {e : Expander} {s : Logged Expander} {ts : List Token}

/-- Tokens none of which is the name of an enabled macro are left as they are. -/
theorem all_eq_self (h : ∀ t ∈ ts, t.Inert s.state.table) : all ts s = .ok ts s := by
  induction ts with
  | nil =>
    unfold all
    rw [allWith]
    rfl
  | cons t rest ih =>
    obtain ⟨ht, hrest⟩ := List.forall_mem_cons.mp h
    have hleft : (do return t :: (← all rest) : Expand (List Token)) s = .ok (t :: rest) s := by
      rw [bind_of_ok (ih hrest), pure_apply]
    unfold all
    rw [allWith]
    split
    · rename_i hkind
      have hnone : head (t :: rest) 0 s = .ok none s := by
        simp [head, headWithin, ht hkind]
      rw [bind_of_ok hnone]
      exact hleft
    · exact hleft

/-- Nesting is not too deep while the open frames leave room below the ceiling. -/
theorem isTooDeep_eq_false {stack : Stack} : isTooDeep e stack = false ↔ e.level + stack.openFrames < e.maxLevel := by
  simp [isTooDeep]

/-- A frame may be put on top while the stack is not too deep with it. -/
theorem descend_of_room {stack : Stack} {names : List String} {name : String} (hs : s.state = e.holding names)
    (hroom : e.level + (stack.push name ts).openFrames < e.maxLevel) :
    descend name (stack.push name ts) s = .ok () { s with state := e.holding (name :: names) } := by
  have hdeep : isTooDeep (e.holding (name :: names)) (stack.push name ts) = false := isTooDeep_eq_false.mpr hroom
  simp only [descend, disable_holding name hs, hdeep]
  rfl

/-- A frame without names of enabled macros is read to its end and taken off. -/
theorem rescan_of_inert {pre : List Token → Expand (List Token)} {bound : Nat} (hbound : 0 < bound) {name : String} (input : List Token)
    (taken : Nat) (out : List Token) (hs : s.state = e.holding [name]) (h : ∀ t ∈ ts, t.Inert s.state.table) :
    rescan pre bound { frames := [{ name, unread := ts }], input, taken } out s =
      ({ input, taken }, .ok (out.reverse ++ ts) { s with state := e }) := by
  induction ts generalizing out with
  | nil =>
    have hturn : turn pre { frames := [{ name, unread := [] }], input, taken } out s = .next { input, taken } out { s with state := e } := by
      simp only [turn, enable_holding hs]
      rfl
    rw [rescan_of_next (Nat.not_lt.mpr hbound) hturn, rescan_of_stop (by simp) rfl, List.append_nil]
  | cons t rest ih =>
    obtain ⟨ht, hrest⟩ := List.forall_mem_cons.mp h
    have hturn : turn pre { frames := [{ name, unread := t :: rest }], input, taken } out s =
        .next { frames := [{ name, unread := rest }], input, taken } (t :: out) s := by
      unfold turn
      dsimp only
      split
      · rename_i hkind
        have hnone : s.state.table.get? t.value = none := by simpa [Table.contains] using ht hkind
        rw [turnAt, replacement_none hnone]
      · rfl
    rw [rescan_of_next (Nat.not_lt.mpr hbound) hturn, ih _ hrest]
    simp

end

/-! ## Substitution -/

/-- No place among some tokens has a value that none of them has. -/
theorem Substitution.textIs_eq_false {ts : List Token} {text : String} (h : ∀ t ∈ ts, t.value ≠ text) (index : Nat) :
    textIs ts[index]? text = false := by
  cases hget : ts[index]? with
  | none => rfl
  | some t => exact decide_eq_false (h t (List.mem_of_getElem? hget))

section

variable {params : List String} {arguments : List Token} {bindings : List (String × List Token)} {s : Logged Expander}

/-- A token of a body without operators comes to what it stands for. -/
theorem substituteAt_of_binds (hbinds : Arguments.Binds params arguments bindings)
    (hinert : ∀ text tokens, bindings.lookup text = some tokens → ∀ t ∈ tokens, t.Inert s.state.table) {t : Token}
    {before after : List Token} (ht : t.value ≠ "##") (hbefore : ∀ u ∈ before, u.value ≠ "#" ∧ u.value ≠ "##")
    (hafter : ∀ u ∈ after, u.value ≠ "##") (out : List Token) :
    ∃ placed, Substitution.substituteAt all params arguments t before after out s = .ok (placed.reverse ++ out) s ∧
      Token.Hold placed ((bindings.lookup t.value).getD [t]) := by
  have hnumber : Substitution.textIs before[0]? "#" = false := Substitution.textIs_eq_false (fun u hu => (hbefore u hu).1) 0
  have hleft : Substitution.textIs before[0]? "##" = false := Substitution.textIs_eq_false (fun u hu => (hbefore u hu).2) 0
  have hright : Substitution.textIs after[0]? "##" = false := Substitution.textIs_eq_false hafter 0
  unfold Substitution.substituteAt
  rcases hbinds.lookup t.value with ⟨hindex, hlookup⟩ | ⟨index, hindex, ⟨hargument, hlookup⟩ | ⟨argument, tokens, hargument, hlookup, htells⟩⟩
  · refine ⟨[t], ?_, ?_⟩
    · rw [hindex]
      rfl
    · rw [hlookup]
      exact .single (List.cons_ne_nil t []) rfl ht
  · refine ⟨[], ?_, ?_⟩
    · simp [hindex, hargument, Substitution.omitted, hnumber, hleft]
    · rw [hlookup]
      exact .nil
  · -- the argument is lexed as the tokens it tells, and none of them is expanded
    have hreads : SaySame (Token.ofText argument.value argument.line argument.uri) tokens :=
      (Token.content_ofText ..).trans htells.reads
    have hexpanded := all_eq_self (hreads.inert (hinert t.value tokens hlookup))
    refine ⟨[Substitution.inPlace argument (Token.spell tokens)], ?_, ?_⟩
    · simp only [hindex, hargument, Substitution.given, hnumber, hleft, hright]
      rw [← Token.spell_congr hreads]
      exact bind_of_ok hexpanded
    · rw [hlookup]
      exact .single htells.ne_nil rfl htells.not_paste

/-- A body without operators comes to what its tokens stand for, one after another. -/
theorem substituteFrom_of_binds (hbinds : Arguments.Binds params arguments bindings)
    (hinert : ∀ text tokens, bindings.lookup text = some tokens → ∀ t ∈ tokens, t.Inert s.state.table) {before body : List Token}
    (hbefore : ∀ u ∈ before, u.value ≠ "#" ∧ u.value ≠ "##") (hbody : ∀ u ∈ body, u.value ≠ "#" ∧ u.value ≠ "##") (out : List Token) :
    ∃ placed, Substitution.substituteFrom all params arguments before out body s = .ok (out.reverse ++ placed) s ∧
      Token.Hold placed (body.flatMap fun t => (bindings.lookup t.value).getD [t]) := by
  induction body generalizing before out with
  | nil => exact ⟨[], by rw [List.append_nil]; rfl, .nil⟩
  | cons t rest ih =>
    obtain ⟨ht, hrest⟩ := List.forall_mem_cons.mp hbody
    obtain ⟨here, hat, hhere⟩ := substituteAt_of_binds hbinds hinert ht.2 hbefore (fun u hu => (hrest u hu).2) out
    obtain ⟨later, hfrom, hlater⟩ := ih (List.forall_mem_cons.mpr ⟨ht, hbefore⟩) hrest (here.reverse ++ out)
    refine ⟨here ++ later, ?_, hhere.append hlater⟩
    rw [Substitution.substituteFrom, bind_of_ok hat, hfrom]
    simp

end

/-! ## Invocations -/

section

variable {m : Macro} {args : List (List Token)} {s : Logged Expander}

/-- The body of a macro without operators, with its arguments in place and lexed again, is the body with its parameters replaced. -/
theorem instantiate_of_binds {params : List String} {found : List Token}
    (hbody : ∀ t ∈ m.body, t.Lexed ∧ ¬t.LoneQuote ∧ t.value ∉ ["#", "##"]) (hargs : ∀ a ∈ args, Arguments.Group a)
    (hinert : ∀ a ∈ args, ∀ t ∈ a, t.Inert s.state.table)
    (hbinds : Arguments.Binds params (Arguments.fold params.length found) (m.bindings args)) (place : Token) :
    ∃ tokens, instantiate all [] 0 params found m.body place s = .ok (some tokens) s ∧ SaySame tokens (m.substituted args) := by
  have hoperators (t : Token) (ht : t ∈ m.body) : t.value ≠ "#" ∧ t.value ≠ "##" := by simpa using (hbody t ht).2.2
  have hbound (text : String) (tokens : List Token) (h : (m.bindings args).lookup text = some tokens) :
      ∀ t ∈ tokens, t.Inert s.state.table := by
    intro t ht
    obtain ⟨a, ha, hta⟩ | rfl := Macro.mem_of_lookup_bindings h ht
    · exact hinert a ha t hta
    · exact nofun
  have hlexed : ∀ t ∈ m.substituted args, t.Lexed ∧ ¬t.LoneQuote := by
    intro t ht
    obtain ht | ⟨a, ha, hta⟩ | rfl := Macro.mem_substituted ht
    · exact ⟨(hbody t ht).1, (hbody t ht).2.1⟩
    · exact (hargs a ha).lexed t hta
    · exact ⟨Token.lexed_comma, by decide⟩
  have hfirst : ∀ t ∈ ([] : List Token), t.value ≠ "#" ∧ t.value ≠ "##" := List.forall_mem_nil _
  obtain ⟨placed, hsubstitute, hhold⟩ := substituteFrom_of_binds hbinds hbound hfirst hoperators []
  refine ⟨relex (Paste.paste placed) place, ?_, ?_⟩
  · -- no frame is crossed and no token is missing
    have hnone : enableAll [] s = .ok () s := rfl
    rw [instantiate, bind_of_ok hnone]
    simp only [ne_eq, not_true_eq_false, if_false]
    exact bind_of_ok hsubstitute
  · rw [hhold.paste_eq, relex, hhold.spell_eq]
    exact (Token.content_ofText ..).trans (Token.saySame_ofText_spell hlexed)

/-- The replacement of an invocation takes up its tokens and is the body with its parameters replaced. -/
theorem replacement_invocation {name head : Token} {inside : List Token} (hget : s.state.table.get? name.value = some m)
    (hfunction : m.isFunctionLike = true) (hbody : ∀ t ∈ m.body, t.Lexed ∧ ¬t.LoneQuote ∧ t.value ∉ ["#", "##"])
    (hargs : ∀ a ∈ args, Arguments.Group a) (haccepts : m.accepts args.length = true)
    (hinert : ∀ a ∈ args, ∀ t ∈ a, t.Inert s.state.table) (hwindow : SaySame (head :: inside) (Arguments.invocation name args))
    (rest : List Token) :
    ∃ tokens, replacement all head { input := inside ++ rest } s = ({ input := rest, taken := inside.length }, .ok (some tokens) s) ∧
      SaySame tokens (m.substituted args) := by
  obtain ⟨params, hparams⟩ := Option.isSome_iff_exists.mp hfunction
  obtain ⟨found, hread, hfound⟩ := Arguments.read_invocation hargs hwindow rest
  obtain ⟨tokens, hinstantiate, hsame⟩ :=
    instantiate_of_binds hbody hargs hinert (Macro.binds_arguments hargs hfound hparams haccepts) head
  have hvalue : head.value = name.value := Token.value_of_content (List.cons.inj hwindow).1
  have hcount : m.accepts found.length = true := by rwa [hfound.length_eq, List.length_map]
  have htaken : ({ input := inside ++ rest } : Stack).consume inside.length =
      { stack := { input := rest, taken := inside.length }, crossed := [], missing := 0 } := by
    simp [Stack.consume, Stack.cross]
  refine ⟨tokens, ?_, hsame⟩
  simp only [replacement, hvalue, hget, hparams, Stack.lookahead, List.flatMap_nil, List.nil_append, hread, hcount, if_true, htaken,
    hinstantiate]

/-- A replacement without frames is put on the stack when two levels are left below the ceiling; what reading it to its end leaves is what
the invocation comes to. -/
theorem headWithin_of_rescan {pre : List Token → Expand (List Token)} {tokens body input rest out : List Token} {start taken : Nat}
    {head : Token} (hwindow : tokens.drop start = head :: input) (hceiling : s.state.level + 3 ≤ s.state.maxLevel)
    (hreplaced : replacement pre head { input } { s with state := s.state.enter } =
      ({ input := rest, taken }, .ok (some body) { s with state := s.state.enter }))
    (hrescan : rescan pre (s.state.enter.holding [head.value]).table.size (({ input := rest, taken } : Stack).push head.value body) []
      { s with state := s.state.enter.holding [head.value] } = ({ input := rest, taken }, .ok out { s with state := s.state.enter })) :
    headWithin pre tokens start s = .ok (some { beyond := taken, tokens := Token.relocate out head }) s := by
  have hget : (s.state.table.get? head.value).isSome = true := get?_of_replacement (s := { s with state := s.state.enter }) hreplaced
  have hstart : isTooDeep s.state.enter { input } = false := by
    refine isTooDeep_eq_false.mpr ?_
    simp only [Expander.enter, Stack.openFrames, List.filter_nil, List.length_nil]
    omega
  have hroom : s.state.enter.level + (({ input := rest, taken } : Stack).push head.value body).openFrames < s.state.enter.maxLevel := by
    have hopen : (({ input := rest, taken } : Stack).push head.value body).openFrames ≤ 1 := List.length_filter_le _ _
    simp only [Expander.enter]
    omega
  have hdescend : descend head.value (({ input := rest, taken } : Stack).push head.value body) { s with state := s.state.enter } =
      .ok () { s with state := s.state.enter.holding [head.value] } := descend_of_room rfl hroom
  have hrun : run pre head input { s with state := s.state.enter } =
      ({ input := rest, taken }, .ok (some out) { s with state := s.state.enter }) := by
    simp only [run, hstart, hreplaced, hdescend, hrescan]
    rfl
  simp only [headWithin, hwindow, Table.contains, hget, if_true, hrun, settle, unwind, List.map_nil, enableAll, pure_apply,
    Expander.leave_enter]

/-- A replacement without names of enabled macros, other than the one that it replaces, is what the invocation comes to. -/
theorem headWithin_of_inert {pre : List Token → Expand (List Token)} {tokens body input rest : List Token} {start taken : Nat}
    {head : Token} (hwindow : tokens.drop start = head :: input) (hceiling : s.state.level + 3 ≤ s.state.maxLevel)
    (hreplaced : replacement pre head { input } { s with state := s.state.enter } =
      ({ input := rest, taken }, .ok (some body) { s with state := s.state.enter }))
    (hinert : ∀ t ∈ body, t.Inert (s.state.enter.holding [head.value]).table) :
    headWithin pre tokens start s = .ok (some { beyond := taken, tokens := Token.relocate body head }) s := by
  have hget : (s.state.table.get? head.value).isSome = true := get?_of_replacement (s := { s with state := s.state.enter }) hreplaced
  have hsize : 0 < (s.state.enter.holding [head.value]).table.size := by
    obtain ⟨m, hm⟩ := Option.isSome_iff_exists.mp hget
    have hpos := List.length_pos_of_mem (Table.name_of_get? hm).2
    rwa [Table.length_names] at hpos
  exact headWithin_of_rescan hwindow hceiling hreplaced (rescan_of_inert hsize rest taken [] rfl hinert)

end

/-- The invocation of a function-like macro, with arguments that it accepts, takes up its tokens from the name to the closing parenthesis and
comes to the body with each parameter replaced by the tokens of its argument; the last parameter of a variadic macro is replaced by all
arguments that are left, with commas between them, or by nothing. The body is lexed, as that of every macro that is read (`Macro.Written`),
and has no operators; no name in it but that of the macro has an enabled macro, no name in an argument has one, and the ceiling leaves three
levels. The expander is left as it was, and nothing is told. -/
theorem head_eq_substituted {tokens window rest : List Token} {start : Nat} {name : Token} {m : Macro} {args : List (List Token)}
    {s : Logged Expander} (hget : s.state.table.get? name.value = some m) (hfunction : m.isFunctionLike = true)
    (hbody : ∀ t ∈ m.body, t.Lexed ∧ ¬t.LoneQuote ∧ t.value ∉ ["#", "##"]) (hargs : ∀ a ∈ args, Arguments.Group a)
    (haccepts : m.accepts args.length = true) (hinertArgs : ∀ a ∈ args, ∀ t ∈ a, t.Inert s.state.table)
    (hinertBody : ∀ t ∈ m.body, t.value ≠ name.value → t.Inert s.state.table) (hceiling : s.state.level + 3 ≤ s.state.maxLevel)
    (htokens : tokens.drop start = window ++ rest) (hwindow : SaySame window (Arguments.invocation name args)) :
    ∃ ex, Expand.head tokens start s = .ok (some ex) s ∧ ex.consumed = window.length ∧ SaySame ex.tokens (m.substituted args) := by
  obtain ⟨head, inside, rfl⟩ : ∃ head inside, window = head :: inside := by
    rcases hwindow.cases with ⟨-, hnil⟩ | ⟨head, inside, _, _, rfl, -⟩
    · cases hnil
    · exact ⟨head, inside, rfl⟩
  have hvalue : head.value = name.value := Token.value_of_content (List.cons.inj hwindow).1
  obtain ⟨body, hreplaced, hsame⟩ := replacement_invocation (s := { s with state := s.state.enter }) hget hfunction hbody hargs haccepts
    hinertArgs hwindow rest
  have hinert (t : Token) (ht : t ∈ m.substituted args) : t.Inert (s.state.enter.holding [head.value]).table := by
    refine .holding fun hother => ?_
    obtain ht | ⟨a, ha, hta⟩ | rfl := Macro.mem_substituted ht
    · exact hinertBody t ht (hvalue ▸ hother)
    · exact hinertArgs a ha t hta
    · exact nofun
  rw [head_eq_headWithin_all]
  refine ⟨_, headWithin_of_inert htokens hceiling hreplaced (hsame.inert hinert), rfl, ?_⟩
  exact (Token.content_relocate body head).trans hsame

/-- A macro that names itself and takes any number of arguments. -/
def Macro.logging : Macro :=
  { name := "LOG", shape := .variadic ["f"] "more", body := Token.ofText "LOG f ( more , f )" }

def Table.logging : Table :=
  { user := [("LOG", .logging)] }

/-- Arguments with commas inside parentheses and inside a literal. -/
def Arguments.nested : List (List Token) :=
  [Token.ofText "g(x,1)", Token.ofText "\"a, b\"", Token.ofText "(y,z)+2"]

/-- Each of these arguments is a group. -/
theorem Arguments.nested_groups : ∀ a ∈ nested, Group a := by
  have hlexed : ∀ a ∈ nested, ∀ t ∈ a, t.Lexed := by
    simp only [nested, List.forall_mem_cons]
    exact ⟨fun t => Token.lexed_of_mem, fun t => Token.lexed_of_mem, fun t => Token.lexed_of_mem, nofun⟩
  have hall : (nested.all fun a => decide (a ≠ [] ∧ depthAfter 0 a = some 0 ∧ (∀ t ∈ a, ¬t.LoneQuote) ∧ a.map Token.value ≠ ["##"])) =
      true := by cbv
  intro a ha
  obtain ⟨hne, hbalanced, hlone, hpaste⟩ := of_decide_eq_true (List.all_eq_true.mp hall a ha)
  exact ⟨hne, hbalanced, fun t ht => ⟨hlexed a ha t ht, hlone t ht⟩, hpaste⟩

/-- What the body becomes with these arguments in place. -/
theorem Macro.content_substituted_logging : (Macro.logging.substituted Arguments.nested).map Token.content =
    (Token.ofText "LOG g(x,1)(\"a, b\",(y,z)+2, g(x,1))").map Token.content := by
  cbv

/-- A text with an invocation in it. -/
def Token.invoking : List Token :=
  ofText "see LOG(g(x, 1), \"a, b\", (y, z)+2);"

/-- The invocation stands in the text, in other spacing. -/
theorem Token.invoking_window : SaySame ((invoking.drop 1).take 19) (Arguments.invocation (word "LOG") Arguments.nested) := by
  unfold SaySame
  cbv

theorem Token.length_invoking : ((invoking.drop 1).take 19).length = 19 := by
  cbv

/-- The body of this macro is lexed, and has no operators and no lone quotes. -/
theorem Macro.logging_body : ∀ t ∈ Macro.logging.body, t.Lexed ∧ ¬t.LoneQuote ∧ t.value ∉ ["#", "##"] := by
  have hall : (Macro.logging.body.all fun t => ¬t.LoneQuote ∧ t.value ∉ ["#", "##"]) = true := by cbv
  exact fun t ht => ⟨Token.lexed_of_mem ht, of_decide_eq_true (List.all_eq_true.mp hall t ht)⟩

/-- Only the name of the macro can be expanded. -/
theorem Table.logging_inert {t : Token} (h : t.value ≠ "LOG") : t.Inert Table.logging := by
  intro _
  simp [Table.contains, Table.get?, Table.logging, Table.isDisabled, List.lookup_cons, beq_false_of_ne h]

/-- The arguments have no name of a macro. -/
theorem Arguments.nested_inert : ∀ a ∈ nested, ∀ t ∈ a, t.Inert Table.logging := by
  have hall : (nested.all fun a => a.all fun t => t.value != "LOG") = true := by cbv
  simp only [List.all_eq_true, bne_iff_ne] at hall
  exact fun a ha t ht => Table.logging_inert (hall a ha t ht)

/-- The invocation is expanded to the body with the arguments in place, although the macro names itself. -/
theorem head_eq_substituted_logging :
    (∀ a ∈ Arguments.nested, Arguments.Group a) ∧ Macro.logging.accepts Arguments.nested.length = true ∧
    SaySame ((Token.invoking.drop 1).take 19) (Arguments.invocation (.word "LOG") Arguments.nested) ∧
    ∃ ex, Expand.head Token.invoking 1 { state := { table := .logging, maxLevel := 3 } } =
        .ok (some ex) { state := { table := .logging, maxLevel := 3 } } ∧ ex.consumed = 19 ∧
      ex.tokens.map Token.content = (Token.ofText "LOG g(x,1)(\"a, b\",(y,z)+2, g(x,1))").map Token.content := by
  have hget : Table.logging.get? (Token.word "LOG").value = some .logging := by cbv
  have haccepts : Macro.logging.accepts Arguments.nested.length = true := by decide
  have htokens : Token.invoking.drop 1 = (Token.invoking.drop 1).take 19 ++ (Token.invoking.drop 1).drop 19 :=
    (List.take_append_drop ..).symm
  obtain ⟨ex, hex, hconsumed, hsame⟩ := head_eq_substituted (s := { state := { table := .logging, maxLevel := 3 } }) hget rfl
    Macro.logging_body Arguments.nested_groups haccepts Arguments.nested_inert (fun t _ => Table.logging_inert) (by decide) htokens
    Token.invoking_window
  refine ⟨Arguments.nested_groups, haccepts, Token.invoking_window, ex, hex, hconsumed.trans Token.length_invoking, ?_⟩
  exact hsame.trans Macro.content_substituted_logging

/-- Without further arguments nothing stands for the last parameter. -/
example : (Macro.logging.substituted [Token.ofText "h"]).map Token.value = ["LOG", "h", "(", ",", "h", ")"] := by cbv

end Prepass
