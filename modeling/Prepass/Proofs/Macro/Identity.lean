import Mathlib
import Prepass.Proofs.Macro.Deeper
import Prepass.Proofs.Macro.ObjectLike
import Prepass.Proofs.Token.Respelling

/-!
# Invoking the identity

The identity macro has one parameter and its body is that parameter. On a table of other macros that are object-like, its invocation with
names is expanded twice: the names are expanded as they would be without it, and what comes of them is spelled, lexed again and
expanded once more, inside the identity (`all_identity`). The second time the names of the first expansion are no longer disabled. An
invocation therefore comes to the first expansion only when that leaves no name of another macro; a name that was left because it stands
in its own replacement is replaced once more (`identity_expands_again`).
-/

namespace Prepass

open Expand

/-! ## The identity -/

/-- The macro of one parameter whose body is that parameter. -/
def Macro.IsIdentity (m : Macro) (parameter : Token) : Prop :=
  m.shape = .function [parameter.value] ∧ m.body = [parameter]

namespace Table

/-- A table of object-like macros and the identity under a name, which is not disabled. -/
structure WithIdentity (t : Table) (identity : String) (parameter : Token) : Prop where
  parameter_name : parameter.Name
  enabled : ∃ m, t.get? identity = some m ∧ m.IsIdentity parameter
  others : ∀ entry ∈ t.predefined ++ t.user, entry.2.shape = .object ∨ entry.1 = identity ∧ entry.2.IsIdentity parameter

namespace WithIdentity

variable {t : Table} {identity : String} {parameter : Token}

theorem plain (h : t.WithIdentity identity parameter) : t.Plain := by
  intro entry hentry
  rcases h.others entry hentry with hobject | ⟨-, hshape, -⟩
  · exact Macro.plain_of_object hobject
  · intro params hparams
    rw [Macro.params?, hshape] at hparams
    cases hparams
    have hnames : ∀ p ∈ [parameter], p.Name := by simpa using h.parameter_name
    exact plainParams_of_names hnames

/-- Every macro of another name is object-like. -/
theorem object_of_ne (h : t.WithIdentity identity parameter) (name : String) (m : Macro) (hne : name ≠ identity)
    (hm : t.definition? name = some m) : m.shape = .object := by
  rcases h.others _ (mem_of_definition? hm) with hobject | ⟨hname, -⟩
  · exact hobject
  · exact absurd hname hne

end WithIdentity

end Table

/-- The one token that an expanded argument becomes in place of a parameter. -/
def Token.standIn (ts : List Token) : Token :=
  { value := spell ts, kind := .stringLiteral }

/-- What an expanded argument is read as when it makes up a whole body: with paste operators carried out, and lexed again. -/
def Token.reread (ts : List Token) : List Token :=
  ofText (spell (Paste.paste [standIn ts]))

theorem Token.content_reread {ts ts' : List Token} (h : SaySame ts ts') : SaySame (reread ts) (reread ts') := by
  rw [reread, reread, standIn, standIn, spell_congr h]
  exact .refl _

/-! ## Its argument -/

/-- Names between parentheses are one group. -/
theorem Arguments.readFrom_names {ts : List Token} {closing : Token} (h : ∀ t ∈ ts, t.Name)
    (hclosing : closing.content = (")", .punctuator)) (consumed : Nat) (arguments group : List Token) :
    readFrom (·.kind = .eof) consumed arguments group 0 (ts ++ [closing]) =
      .list (consumed + ts.length + 1) (ofGroup (group.reverse ++ ts) ++ arguments).reverse := by
  obtain ⟨hvalue, hkind⟩ := Prod.mk.inj hclosing
  induction ts generalizing consumed group with
  | nil => simp [readFrom, hvalue, hkind]
  | cons t ts ih =>
    obtain ⟨ht, hts⟩ := List.forall_mem_cons.mp h
    have hclose : t.value ≠ ")" := ht.value_ne ')' [] (by decide)
    have hopen : t.value ≠ "(" := ht.value_ne '(' [] (by decide)
    have hcomma : t.value ≠ "," := ht.value_ne ',' [] (by decide)
    have hrest := ih hts (consumed + 1) (t :: group)
    rw [List.reverse_cons, List.append_assoc] at hrest
    simp only [List.cons_append, readFrom, ht.1, hclose, hopen, hcomma]
    simp only [reduceCtorEq, decide_false, Bool.false_eq_true, and_false, if_false, hrest]
    simp only [List.length_cons, List.singleton_append, Found.list.injEq, and_true]
    omega

section

variable {pre : List Token → Expand (List Token)} {s : Logged Expander} {identity opening closing parameter t : Token}
  {ts : List Token} {m : Macro}

/-- The body of the identity with an argument in place is what the argument comes to when it is expanded. -/
theorem instantiate_identity (parameter argument place : Token) (s : Logged Expander) :
    instantiate pre [] 0 [parameter.value] [argument] [parameter] place s = (do
      let expanded ← pre (Token.ofText argument.value argument.line argument.uri)
      return some (relex (Paste.paste [Substitution.inPlace argument (Token.spell expanded)]) place)) s := by
  simp [instantiate, Substitution.substitute, Substitution.substituteFrom, Substitution.substituteAt, Substitution.given,
    Substitution.textIs, Arguments.fold, enableAll]

/-- The invocation of the identity takes up the parentheses and the names between them, which are one argument. -/
theorem replacement_identity (pre : List Token → Expand (List Token)) (hget : s.state.table.get? identity.value = some m)
    (hm : m.IsIdentity parameter) (hopening : opening.content = ("(", .punctuator)) (hclosing : closing.content = (")", .punctuator))
    (hnames : ∀ u ∈ t :: ts, u.Name) :
    replacement pre identity { input := opening :: (t :: ts ++ [closing]) } s =
      ({ input := [], taken := ts.length + 3 }, (do
        let expanded ← pre (Token.ofText (Token.spell (t :: ts)) t.line t.uri)
        return some (relex (Paste.paste [Token.standIn expanded]) identity)) s) := by
  obtain ⟨hvalue, hkind⟩ := Prod.mk.inj hopening
  have hread : Arguments.read (·.kind = .eof) (opening :: (t :: ts ++ [closing])) =
      .list (ts.length + 3) (Arguments.ofGroup (t :: ts)) := by
    simp only [Arguments.read, hvalue, hkind, Arguments.readFrom_names hnames hclosing]
    simp [Arguments.ofGroup]
    omega
  have hparams : m.params? = some [parameter.value] := by rw [Macro.params?, hm.1]
  have haccepts : m.accepts 1 = true := by rw [Macro.accepts, hm.1]; rfl
  have hstrip := Token.strip_spell fun u hu => (hnames u hu).2
  have htaken : ({ input := opening :: (t :: ts ++ [closing]) } : Stack).consume (ts.length + 3) =
      { stack := { input := [], taken := ts.length + 3 }, crossed := [], missing := 0 } := by
    simp [Stack.consume, Stack.cross]
  have hstandIn (argument : Token) (expanded : List Token) :
      Token.spell (Paste.paste [Substitution.inPlace argument (Token.spell expanded)]) =
        Token.spell (Paste.paste [Token.standIn expanded]) := by
    simp only [Paste.paste, Paste.pasteFrom, Paste.isOperator, Substitution.inPlace, Token.standIn]
    by_cases hsign : Token.spell expanded = "##"
    · simp [hsign]
    · simp only [hsign, decide_false, Bool.false_eq_true, if_false]
      rfl
  simp only [replacement, hget, hparams, Stack.lookahead, List.flatMap_nil, List.nil_append, hread, Arguments.ofGroup,
    List.length_singleton, haccepts, if_true, htaken, hm.2, instantiate_identity, hstrip, relex, hstandIn]

/-- Tokens whose macros are all among the names they are inside of stand for themselves. -/
theorem unfolded_eq_self {t : Table} {inside : List String} {us : List Token}
    (h : ∀ u ∈ us, u.kind = .identifier → (t.definition? u.value).isSome = true → u.value ∈ inside) :
    us.flatMap (t.unfolded inside) = us := by
  induction us with
  | nil => rfl
  | cons u us ih =>
    obtain ⟨hu, hus⟩ := List.forall_mem_cons.mp h
    have hself : t.unfolded inside u = [u] := by
      rw [Table.unfolded, if_neg]
      rintro ⟨hkind, hdefined, hout⟩
      exact hout (hu hkind hdefined)
    rw [List.flatMap_cons, hself, ih hus]
    rfl

end

/-! ## Its invocation -/

section

variable {e : Expander} {identity opening closing parameter t : Token} {ts : List Token}

/-- The invocation of the identity at the head takes up its argument and comes to what the expanded argument stands for inside the
identity, unless nesting is too deep, which takes a low ceiling. -/
theorem head_identity (htable : e.table.WithIdentity identity.value parameter) (hopening : opening.content = ("(", .punctuator))
    (hclosing : closing.content = (")", .punctuator)) (hnames : ∀ u ∈ t :: ts, u.Name) (hshallow : e.level + 1 < e.maxLevel)
    {expanded : List Token} {s : Logged Expander}
    (hexpanded : all (Token.ofText (Token.spell (t :: ts)) t.line t.uri) { state := e.enter } = .ok expanded s) :
    (∃ ex, head (identity :: opening :: (t :: ts ++ [closing])) 0 { state := e } = .ok (some ex) { s with state := e } ∧
      ex.beyond = ts.length + 3 ∧
      SaySame ex.tokens ((Token.reread expanded).flatMap (e.table.unfolded (identity.value :: e.table.disabled)))) ∨
    (∃ s', head (identity :: opening :: (t :: ts ++ [closing])) 0 { state := e } = .ok none s' ∧ s'.ToldDeep ∧
      e.maxLevel ≤ e.level + 1 + e.table.macroNames.length) := by
  obtain ⟨m, hget, hm⟩ := htable.enabled
  have hreplaced := replacement_identity (s := { state := e.enter }) all hget hm hopening hclosing hnames
  rw [bind_of_ok hexpanded, pure_apply] at hreplaced
  have hwindow : (identity :: opening :: (t :: ts ++ [closing])).drop 0 = identity :: opening :: (t :: ts ++ [closing]) := rfl
  rw [head_eq_headWithin_all]
  rcases headWithin_unrolls (s := { state := e }) restores_all_or_deep htable.object_of_ne hwindow hshallow hreplaced rfl with
    ⟨ex, hex, hbeyond, hcontent⟩ | ⟨s', hnone, htold, hceiling⟩
  · refine .inl ⟨ex, hex, hbeyond, hcontent.trans ?_⟩
    exact Table.content_unfolded_all _ (content_relex (.refl _) identity { value := "", kind := .eof })
  · exact .inr ⟨s', hnone, ⟨_, _, htold⟩, hceiling⟩

/-- Nothing is left to be expanded after an invocation that takes up all tokens. -/
theorem all_of_head {rest : List Token} {ex : Expansion} {s s' : Logged Expander} (hkind : identity.kind = .identifier)
    (hhead : head (identity :: rest) 0 s = .ok (some ex) s') (hbeyond : ex.beyond = rest.length) :
    all (identity :: rest) s = .ok ex.tokens s' := by
  unfold all
  rw [allWith, if_pos hkind, bind_of_ok hhead]
  dsimp only
  rw [hbeyond, List.drop_length, allWith]
  simp [bind, EStateM.bind]

/-- What was told while the invocation at the head was expanded is told when all tokens are. -/
theorem latest_all_of_head (hkind : t.kind = .identifier) (rest : List Token) (s : Logged Expander) :
    (stateAfter (head (t :: rest) 0 s)).latest <:+ (stateAfter (all (t :: rest) s)).latest := by
  unfold all
  rw [allWith, if_pos hkind]
  refine Telling.latest_bind (fun found => ?_) _ s
  have hrest (k : Nat) : Telling (allWith (fun window => head window) (rest.drop k)) := telling_all _
  cases found with
  | none => exact (hrest 0).bind fun _ => .pure _
  | some ex => exact (hrest ex.beyond).bind fun _ => .pure _

/-- At the ceiling no invocation is expanded, and that is told. -/
theorem told_at_ceiling {head : Token} {s : Logged Expander} (hhead : s.state.table.contains head.value = true)
    (hceiling : s.state.maxLevel ≤ s.state.level + 1) (input : List Token) :
    (stateAfter (Expand.head (head :: input) 0 s)).ToldDeep := by
  have hdeep : isTooDeep s.state.enter { input } = true := by
    simpa [isTooDeep, Stack.openFrames, Expander.enter] using hceiling
  simp only [Expand.head, headWithin, List.drop_zero, hhead, if_true, run, hdeep]
  exact told_settle (.inl rfl)

/-- Names come to the same on their own and as an argument, one level further in, unless nesting is too deep there. -/
theorem argument_beside (hplain : e.table.Plain) (hnames : ∀ u ∈ ts, u.Name) (line : Int) (uri : String) :
    ∃ once s₁ expanded s₂, all ts { state := e } = .ok once s₁ ∧
      all (Token.ofText (Token.spell ts) line uri) { state := e.enter } = .ok expanded s₂ ∧
      (SaySame expanded once ∨ s₂.ToldDeep) := by
  have hplain' : e.enter.table.Plain := hplain
  obtain ⟨once, s₁, honce, -, -⟩ := (all_faultless hplain ts).exists_ok (s := { state := e }) rfl
  obtain ⟨expanded, s₂, hexpanded, -, -⟩ :=
    (all_faultless hplain' (Token.ofText (Token.spell ts) line uri)).exists_ok (s := { state := e.enter }) rfl
  have hsame : AgreeTokens False ts (Token.ofText (Token.spell ts) line uri) :=
    ⟨(Token.content_ofText_spell hnames).symm.trans (Token.content_ofText ..).symm, nofun⟩
  have hdeeper : Deeper (e.level + 1 - 1) e.maxLevel { state := e } { state := e.enter } := ⟨rfl, by simp, rfl⟩
  have hbeside := (Deeper.coupling e.maxLevel).parallel_all hsame _ _ hdeeper
  rw [honce, hexpanded] at hbeside
  refine ⟨once, s₁, expanded, s₂, honce, hexpanded, ?_⟩
  cases hbeside with
  | ok h _ => exact .inl h.view_eq.symm
  | deep _ h => exact .inr h

/-- On a table of object-like macros and the identity, the invocation of the identity with names comes to what the expansion of the names
stands for inside the identity once it is spelled and lexed again, as long as nesting is not too deep. That is the expansion of the names
itself if it lexes as it is spelled and leaves no enabled name but that of the identity. -/
theorem all_identity (htable : e.table.WithIdentity identity.value parameter) (hidentity : identity.kind = .identifier)
    (hopening : opening.content = ("(", .punctuator)) (hclosing : closing.content = (")", .punctuator))
    (hnames : ∀ t ∈ ts, t.Name) (hne : ts ≠ [])
    (hroom : ¬(stateAfter (all (identity :: opening :: (ts ++ [closing])) { state := e })).ToldDeep) :
    ∃ once out, (all ts).run' { state := e } = some once ∧
      (all (identity :: opening :: (ts ++ [closing]))).run' { state := e } = some out ∧
      SaySame out ((Token.reread once).flatMap (e.table.unfolded (identity.value :: e.table.disabled))) ∧
      (SaySame (Token.reread once) once →
        (∀ t ∈ once, t.kind = .identifier → e.table.contains t.value = true → t.value = identity.value) → SaySame out once) := by
  cases ts with
  | nil => exact absurd rfl hne
  | cons t ts =>
    obtain ⟨once, s₁, expanded, s₂, honce, hexpanded, hsame⟩ := argument_beside htable.plain hnames t.line t.uri
    have hquiet : ¬(stateAfter (head (identity :: opening :: (t :: ts ++ [closing])) 0 { state := e })).ToldDeep :=
      fun htold => hroom (htold.of_suffix (latest_all_of_head hidentity _ _))
    have henabled : e.table.contains identity.value = true := by
      obtain ⟨m, hget, -⟩ := htable.enabled
      rw [Table.contains, hget]
      rfl
    have hshallow : e.level + 1 < e.maxLevel := Int.not_le.mp fun hceiling => hquiet (told_at_ceiling henabled hceiling _)
    rcases head_identity htable hopening hclosing hnames hshallow hexpanded with ⟨ex, hex, hbeyond, htokens⟩ | ⟨s', hnone, htold, -⟩
    · rw [hex] at hquiet
      have hexpansion : SaySame expanded once := hsame.resolve_right hquiet
      have hout := htokens.trans (Table.content_unfolded_all _ (Token.content_reread hexpansion))
      have hall := all_of_head hidentity hex (by simpa using hbeyond)
      refine ⟨once, ex.tokens, run'_eq_some.mpr ⟨_, honce⟩, run'_eq_some.mpr ⟨_, hall⟩, hout, fun hlexed hleft => ?_⟩
      have hself : once.flatMap (e.table.unfolded (identity.value :: e.table.disabled)) = once := by
        refine unfolded_eq_self fun u hu hkind hdefined => ?_
        by_cases hdisabled : u.value ∈ e.table.disabled
        · exact List.mem_cons_of_mem _ hdisabled
        · have hcontains : e.table.contains u.value = true := by rw [Table.contains, Table.get?_eq, if_neg hdisabled, hdefined]
          rw [hleft u hu hkind hcontains]
          exact List.mem_cons_self
      have hunfolded := Table.content_unfolded_all (t := e.table) (identity.value :: e.table.disabled) hlexed
      rw [hself] at hunfolded
      exact hout.trans hunfolded
    · rw [hnone] at hquiet
      exact absurd htold hquiet

end

/-! ## A name in its own replacement -/

/-- A word of the given text. -/
def Token.word (text : String) : Token :=
  { value := text, kind := .identifier }

/-- A sign of the given text. -/
def Token.sign (text : String) : Token :=
  { value := text, kind := .punctuator }

/-- The identity and a macro that names itself. -/
def Table.selfNaming : Table :=
  { user := [("foo", { name := "foo", shape := .object, body := Token.ofText "foo + 1" }),
      ("ID", { name := "ID", shape := .function ["x"], body := [.word "x"] })] }

theorem Table.selfNaming_withIdentity : Table.selfNaming.WithIdentity (Token.word "ID").value (.word "x") where
  parameter_name := ⟨rfl, Token.lexed_of_lexeme rfl (by decide) (by decide)⟩
  enabled := ⟨{ name := "ID", shape := .function ["x"], body := [.word "x"] }, by cbv, rfl, rfl⟩
  others := by simp [Table.selfNaming, Macro.IsIdentity, Token.word]

theorem Token.word_foo_name : ∀ t ∈ [Token.word "foo"], t.Name := by
  intro t ht
  rw [List.mem_singleton.mp ht]
  exact ⟨rfl, Token.lexed_of_lexeme rfl (by decide) (by decide)⟩

set_option maxRecDepth 2000 in
/-- The argument of the invocation leaves the name in its own replacement, and the invocation replaces it once more. -/
theorem all_selfNaming : ∃ out s,
    all [.word "ID", .sign "(", .word "foo", .sign ")"] { state := { table := .selfNaming } } = .ok out s ∧ s.latest = [] ∧
    out.map Token.content =
      [("foo", .identifier), ("+", .punctuator), ("1", .numberLiteral), ("+", .punctuator), ("1", .numberLiteral)] := by
  have hargument : match all (Token.ofText (Token.spell [.word "foo"]) 1 "") { state := { table := .selfNaming, level := 1 } } with
      | .ok expanded s => expanded.map Token.content = [("foo", .identifier), ("+", .punctuator), ("1", .numberLiteral)] ∧ s.latest = []
      | .error .. => False := by cbv
  cases hexpanded : all (Token.ofText (Token.spell [.word "foo"]) 1 "") { state := { table := .selfNaming, level := 1 } } with
  | error err s => exact (hexpanded ▸ hargument).elim
  | ok expanded s =>
    rw [hexpanded] at hargument
    have hceiling : ¬((200 : Int) ≤ 0 + 1 + Table.selfNaming.macroNames.length) := by decide
    have hlexed : SaySame expanded (Token.ofText "foo + 1") := hargument.1.trans (by cbv)
    have hagain : ((Token.reread (Token.ofText "foo + 1")).flatMap (Table.selfNaming.unfolded ["ID"])).map Token.content =
        [("foo", .identifier), ("+", .punctuator), ("1", .numberLiteral), ("+", .punctuator), ("1", .numberLiteral)] := by
      cbv
    have hopening : (Token.sign "(").content = ("(", .punctuator) := rfl
    have hclosing : (Token.sign ")").content = (")", .punctuator) := rfl
    rcases head_identity (e := { table := .selfNaming }) Table.selfNaming_withIdentity hopening hclosing Token.word_foo_name (by decide)
      hexpanded with ⟨ex, hex, hbeyond, htokens⟩ | ⟨s', -, -, hdeep⟩
    · refine ⟨ex.tokens, _, all_of_head rfl hex hbeyond, hargument.2, ?_⟩
      rw [htokens.map_eq, Table.content_unfolded_all _ (Token.content_reread hlexed), ← hagain]
      rfl
    · exact absurd hdeep hceiling

theorem all_identity_selfNaming :
    Table.selfNaming.WithIdentity "ID" (.word "x") ∧ (∀ t ∈ [Token.word "foo"], t.Name) ∧
    ¬(stateAfter (all [.word "ID", .sign "(", .word "foo", .sign ")"] { state := { table := .selfNaming } })).ToldDeep ∧
    ∃ once out, (all [.word "foo"]).run' { state := { table := .selfNaming } } = some once ∧
      (all [.word "ID", .sign "(", .word "foo", .sign ")"]).run' { state := { table := .selfNaming } } = some out ∧
      SaySame out ((Token.reread once).flatMap (Table.selfNaming.unfolded ["ID"])) ∧
      (SaySame (Token.reread once) once →
        (∀ t ∈ once, t.kind = .identifier → Table.selfNaming.contains t.value = true → t.value = "ID") → SaySame out once) := by
  have hroom : ¬(stateAfter (all [.word "ID", .sign "(", .word "foo", .sign ")"] { state := { table := .selfNaming } })).ToldDeep := by
    obtain ⟨out, s, hall, hlatest, -⟩ := all_selfNaming
    rintro ⟨head, limit, hmem⟩
    rw [hall, stateAfter_ok, hlatest] at hmem
    cases hmem
  have hopening : (Token.sign "(").content = ("(", .punctuator) := rfl
  have hclosing : (Token.sign ")").content = (")", .punctuator) := rfl
  refine ⟨Table.selfNaming_withIdentity, Token.word_foo_name, hroom, ?_⟩
  exact all_identity (e := { table := .selfNaming }) Table.selfNaming_withIdentity rfl hopening hclosing Token.word_foo_name (by simp)
    hroom

/-- A name that the expansion of an argument leaves because it stands in its own replacement is replaced once more when the argument stands
for a parameter. -/
theorem identity_expands_again :
    Table.selfNaming.WithIdentity "ID" (.word "x") ∧ (∀ entry ∈ Table.selfNaming.user, ∀ t ∈ entry.2.body, t.value ≠ "##") ∧
    (∀ t ∈ [Token.word "foo"], t.Name) ∧
    ((all [.word "foo"]).run' { state := { table := .selfNaming } }).map (List.map Token.value) = some ["foo", "+", "1"] ∧
    ∃ out s, all [.word "ID", .sign "(", .word "foo", .sign ")"] { state := { table := .selfNaming } } = .ok out s ∧ s.latest = [] ∧
      out.map Token.value = ["foo", "+", "1", "+", "1"] := by
  have hpasteless : (Table.selfNaming.user.all fun entry => entry.2.body.all fun t => t.value != "##") = true := by cbv
  simp only [List.all_eq_true, bne_iff_ne] at hpasteless
  refine ⟨Table.selfNaming_withIdentity, hpasteless, Token.word_foo_name, by cbv, ?_⟩
  obtain ⟨out, s, hall, hlatest, hcontent⟩ := all_selfNaming
  refine ⟨out, s, hall, hlatest, ?_⟩
  have hvalues := congrArg (List.map Prod.fst) hcontent
  simpa [Function.comp_def, Token.content] using hvalues

end Prepass
