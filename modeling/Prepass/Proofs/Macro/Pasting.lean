import Prepass.Proofs.Directive.Lexed
import Prepass.Proofs.Macro.Rewriting

/-!
# Pasting where the body says

A body with its arguments in place is a list of pieces (`Macro.pieces`): its paste operators, its other tokens, and what stands for its
parameters, where a group of tokens makes one piece. Substitution leaves just what is kept of the pieces (`result_substitute`), because it
comes to the body rewritten group by group.

A replacement is therefore lexed from the pasted tokens of the pieces. These are joined where the body has an operator between them just when
the pieces are clear (`replacement_pasted`), and so they are when no argument is omitted or reads as an operator. An argument that is a paste
operator, and an operator with an omitted argument on its left, join tokens that the body does not join (`pasting_departs`).
-/

namespace Prepass

open Expand

/-- The spelling of what an argument is expanded to, if it can be expanded. -/
def Expander.spelled (e : Expander) (argument : Token) : String :=
  match all (Token.ofText argument.value argument.line argument.uri) { state := e } with
  | .ok tokens _ => Token.spell tokens
  | .error _ _ => argument.value

/-- An argument is expanded as it is from the expander alone, whatever was told. -/
theorem Expander.spelled_of_all {argument : Token} {s s' : Logged Expander} {expanded : List Token}
    (h : all (Token.ofText argument.value argument.line argument.uri) s = .ok expanded s') :
    s'.state = s.state ∧ s.state.spelled argument = Token.spell expanded := by
  have hsame := deaf_all (Token.ofText argument.value argument.line argument.uri) s { state := s.state } rfl
  rw [h] at hsame
  refine ⟨(restores_all _).state_of_ok h, ?_⟩
  rcases hsame.cases with ⟨_, _, _, hok, hok', -⟩ | ⟨_, _, _, herror, -, -⟩
  · cases hok
    rw [spelled, hok']
  · cases herror

namespace Substitution

/-! ## The pieces of a body -/

/-- The piece that a token of a body makes alone: a parameter beside a paste operator is the argument as it stands, and any other parameter is
the argument expanded, as `spelled` says. -/
def single (params : List String) (arguments : List Token) (spelled : Token → String) (pasted : Bool) (t : Token) (rest : List Token) : Piece :=
  match binding? params arguments t with
  | some none => .omitted
  | some (some argument) => .token (inPlace argument (if pasted || textIs rest[0]? "##" then argument.value else spelled argument))
  | none => if ht : Paste.isOperator t = true then .operator t ht else .token t

/-- The pieces of a body with its arguments in place; `pasted` tells whether a paste operator stands before it. -/
def pieces (params : List String) (arguments : List Token) (spelled : Token → String) (pasted : Bool) : List Token → List Piece
  | [] => []
  | t :: rest =>
    match group? params arguments t rest with
    | some (piece, more) => piece :: pieces params arguments spelled false (rest.drop more)
    | none => single params arguments spelled pasted t rest :: pieces params arguments spelled (Paste.isOperator t) rest
termination_by body => body.length
decreasing_by
  · simp only [List.length_drop, List.length_cons]; omega
  · simp

/-! ## Substitution leaves what is kept of the pieces -/

section

variable {params : List String} {arguments rest : List Token} {t : Token} {s s' : Logged Expander}

/-- What is put in the place of a token that is in no group is what is kept of its piece. -/
theorem result_alone {e : Expander} (hs : s.state = e) {pasted : Bool} {new : List Token}
    (h : alone all params arguments pasted t rest s = .ok new s') :
    s'.state = e ∧ new = (single params arguments e.spelled pasted t rest).kept := by
  unfold single
  cases hbinding : binding? params arguments t with
  | none =>
    rw [alone, hbinding] at h
    cases h
    refine ⟨hs, ?_⟩
    dsimp only
    split <;> rfl
  | some binding =>
    rw [alone, hbinding] at h
    cases binding with
    | none =>
      cases h
      exact ⟨hs, rfl⟩
    | some argument =>
      dsimp only
      cases hbeside : pasted || textIs rest[0]? "##" with
      | true =>
        rw [hbeside] at h
        cases h
        exact ⟨hs, rfl⟩
      | false =>
        rw [hbeside] at h
        obtain ⟨expanded, s₁, hall, h⟩ := exists_of_bind_ok h
        cases h
        obtain ⟨hstate, hspelled⟩ := Expander.spelled_of_all hall
        rw [hs] at hstate hspelled
        refine ⟨hstate, ?_⟩
        rw [hspelled]
        rfl

/-- The rewriting of a body leaves what is kept of its pieces. -/
theorem result_rewritten {e : Expander} (hs : s.state = e) {pasted : Bool} {body result : List Token}
    (h : rewritten all params arguments pasted body s = .ok result s') :
    result = (pieces params arguments e.spelled pasted body).flatMap Piece.kept := by
  fun_induction pieces params arguments e.spelled pasted body generalizing s result with
  | case1 pasted =>
    rw [rewritten] at h
    cases h
    rfl
  | case2 pasted t rest piece more hgroup ih =>
    rw [rewritten, hgroup] at h
    obtain ⟨after, s₁, hafter, h⟩ := exists_of_bind_ok h
    cases h
    rw [ih hs hafter, List.flatMap_cons]
  | case3 pasted t rest hgroup ih =>
    rw [rewritten, hgroup] at h
    obtain ⟨new, s₁, hnew, h⟩ := exists_of_bind_ok h
    obtain ⟨after, s₂, hafter, h⟩ := exists_of_bind_ok h
    cases h
    obtain ⟨hstate, rfl⟩ := result_alone hs hnew
    rw [ih hstate hafter, List.flatMap_cons]

/-- Substituting arguments in a body leaves what is kept of its pieces. -/
theorem result_substitute (hplain : PlainParams params) {e : Expander} (hs : s.state = e) {body result : List Token}
    (h : substitute all params arguments body s = .ok result s') :
    result = (pieces params arguments e.spelled false body).flatMap Piece.kept := by
  rw [substitute_eq_rewritten hplain] at h
  exact result_rewritten hs h

/-! ## Clear pieces -/

/-- A string literal is no paste operator. -/
theorem isOperator_literal (parameter : Token) (binding : Option Token) : Paste.isOperator (literal parameter binding) = false := by
  refine decide_eq_false fun hvalue => ?_
  cases binding with
  | none =>
    have hempty : "\"\"" = "##" := hvalue
    exact absurd hempty (by decide)
  | some argument =>
    have hlist := congrArg String.toList hvalue
    simp [literal, inPlace, Stringize.literal] at hlist

variable {spelled : Token → String}

/-- Where no argument is omitted, all pieces are operators and tokens. -/
theorem isGiven_of_mem_pieces (h : ∀ t, binding? params arguments t ≠ some none) (pasted : Bool) (body : List Token) :
    ∀ p ∈ pieces params arguments spelled pasted body, p.isGiven = true := by
  fun_induction pieces params arguments spelled pasted body with
  | case1 pasted => exact List.forall_mem_nil _
  | case2 pasted t rest piece more hgroup ih =>
    refine List.forall_mem_cons.mpr ⟨?_, ih⟩
    cases grouped_of_group? hgroup with
    | literal => rfl
    | cancelled _ hp => exact absurd hp (h _)
    | swallowed _ _ hq => exact absurd hq (h _)
  | case3 pasted t rest hgroup ih =>
    refine List.forall_mem_cons.mpr ⟨?_, ih⟩
    unfold single
    split
    · exact absurd ‹_› (h t)
    · rfl
    · split <;> rfl

/-- Arguments that read as operators neither as they stand nor expanded leave plain pieces. -/
theorem isPlain_of_mem_pieces (h : ∀ a ∈ arguments, a.value ≠ "##" ∧ spelled a ≠ "##") (pasted : Bool) (body : List Token) :
    ∀ p ∈ pieces params arguments spelled pasted body, p.isPlain = true := by
  fun_induction pieces params arguments spelled pasted body with
  | case1 pasted => exact List.forall_mem_nil _
  | case2 pasted t rest piece more hgroup ih =>
    refine List.forall_mem_cons.mpr ⟨?_, ih⟩
    cases grouped_of_group? hgroup with
    | literal => rw [Piece.isPlain, isOperator_literal]; rfl
    | cancelled | swallowed => rfl
  | case3 pasted t rest hgroup ih =>
    refine List.forall_mem_cons.mpr ⟨?_, ih⟩
    unfold single
    split
    · rfl
    · rename_i argument hbinding
      obtain ⟨index, -, hget⟩ := Option.map_eq_some_iff.mp hbinding
      obtain ⟨hraw, hspelled⟩ := h argument (List.mem_of_getElem? hget)
      rw [Piece.isPlain, Bool.not_eq_true', Paste.isOperator, decide_eq_false_iff_not]
      dsimp only [inPlace]
      split
      · exact hraw
      · exact hspelled
    · split
      · rfl
      · rename_i hoperator
        simpa [Piece.isPlain] using hoperator

end

end Substitution

/-! ## Replacements -/

open Substitution

/-- The pieces of the body of a macro with the arguments that are found for it, which are expanded by `e`. -/
def Macro.pieces (m : Macro) (e : Expander) (found : List Token) : List Piece :=
  let params := m.params?.getD []
  Substitution.pieces params (Arguments.fold params.length found) e.spelled false m.body

section

variable {e : Expander} {input : List Token} {stack : Stack} {s : Logged Expander} {m : Macro}
  {count : Nat} {found : List Token}

/-- The replacement of an invocation that is accepted: its arguments are put in place and pasted. -/
theorem replacement_of_accepted (pre : List Token → Expand (List Token)) (hbalanced : Balanced e input stack s) {name : Token}
    (hget : s.state.table.get? name.value = some m) {params : List String} (hparams : m.params? = some params)
    (hread : Arguments.read (·.kind = .eof) stack.lookahead = .list count found) (haccepts : m.accepts found.length = true) :
    replacement pre name stack s = ((stack.consume count).stack, (do
        let body ← substitute pre params (Arguments.fold params.length found) m.body
        return some (relex (Paste.paste body) name)) { s with state := e.holding (stack.consume count).stack.names }) := by
  obtain ⟨hmissing, hall, -⟩ := hbalanced.consume hread
  simp only [replacement, hget, hparams, hread, haccepts, if_true, instantiate, hmissing, ne_eq, not_true_eq_false, if_false]
  rw [bind_of_ok hall]

/-- Folding leaves an argument for each parameter that had one. -/
theorem Arguments.le_length_fold {params : Nat} (h : params ≤ found.length) : params ≤ (Arguments.fold params found).length := by
  unfold Arguments.fold
  split
  · exact h
  · split
    · exact h
    · simp only [List.length_append, List.length_take, List.length_singleton]
      omega

/-- Nothing is omitted when there are as many arguments as parameters. -/
theorem Substitution.binding?_ne_omitted {params : List String} {arguments : List Token} (h : params.length ≤ arguments.length) (t : Token) :
    binding? params arguments t ≠ some none := by
  intro homitted
  obtain ⟨index, hindex, hnone⟩ := Option.map_eq_some_iff.mp homitted
  obtain ⟨hless, -⟩ := List.idxOf?_eq_some_iff.mp hindex
  have hle := List.getElem?_eq_none_iff.mp hnone
  omega

/-- The pieces of a body are clear when no argument is omitted and none of them reads as an operator. -/
theorem Macro.clear_pieces {params : List String} (hparams : m.params? = some params) (hlength : params.length ≤ found.length)
    (hplain : ∀ a ∈ Arguments.fold params.length found, a.value ≠ "##" ∧ e.spelled a ≠ "##") : Clear (m.pieces e found) := by
  have hgiven : ∀ t, binding? params (Arguments.fold params.length found) t ≠ some none :=
    binding?_ne_omitted (Arguments.le_length_fold hlength)
  rw [Macro.pieces, hparams]
  exact {
    plain := isPlain_of_mem_pieces hplain false m.body
    linked := linkedFrom_of_isGiven (isGiven_of_mem_pieces hgiven false m.body) (by decide) (by decide) }

/-- The replacement of an invocation of a macro that a directive line defines, whose arguments are accepted. It is lexed from the tokens that
are kept of the pieces of its body, once they are pasted, and on a plain table there is one. That list has the pieces joined that have an
operator of the body between them, an omitted argument being an empty operand, just when the pieces are clear: no argument reads as an
operator, and no omitted argument makes an operator join tokens that it does not stand between. They are clear when there are as many
arguments as parameters and none of them reads as an operator. -/
theorem replacement_pasted {text uri : String} {number : Int} {l : DirectiveLine} {c : Cursor}
    (h : DirectiveLine.ofText text number uri = .ok l c) {defined : Token} {params : Option (List Token)} {variadic : Option Token}
    {body : List Token} (hdirective : l.directive = .define defined params variadic body)
    (hm : m = Macro.ofParts defined params variadic body) (hfunction : m.isFunctionLike = true)
    (hbalanced : Balanced e input stack s) {name : Token} (hget : s.state.table.get? name.value = some m)
    (hread : Arguments.read (·.kind = .eof) stack.lookahead = .list count found) (haccepts : m.accepts found.length = true) :
    let taken := (stack.consume count).stack
    let ps := m.pieces (e.holding taken.names) found
    (∀ stack' result s', replacement all name stack s = (stack', .ok result s') →
      stack' = taken ∧ result = some (relex (Paste.paste (ps.flatMap Piece.kept)) name)) ∧
    (e.table.Plain → ∃ s', replacement all name stack s = (taken, .ok (some (relex (Paste.paste (ps.flatMap Piece.kept)) name)) s')) ∧
    (Paste.paste (ps.flatMap Piece.kept) = joined ps ↔ Clear ps) ∧
    (∀ names, m.params? = some names → names.length ≤ found.length →
      (∀ a ∈ Arguments.fold names.length found, a.value ≠ "##" ∧ (e.holding taken.names).spelled a ≠ "##") → Clear ps) := by
  intro taken ps
  obtain ⟨names, hnames⟩ := Option.isSome_iff_exists.mp hfunction
  have hplain : PlainParams names := by
    have hsound := Parse.reads_directiveLine.value_of (fun t => Token.lexed_of_mem) h
    rw [hdirective] at hsound
    exact hsound.1 names (hm ▸ hnames)
  have hreplacement := replacement_of_accepted all hbalanced hget hnames hread haccepts
  have hplaced {placed : List Token} {s' : Logged Expander}
      (hok : substitute all names (Arguments.fold names.length found) m.body { s with state := e.holding taken.names } = .ok placed s') :
      placed = ps.flatMap Piece.kept := by
    simpa [ps, Macro.pieces, hnames] using result_substitute hplain rfl hok
  refine ⟨?_, ?_, paste_kept_eq_iff ps, ?_⟩
  · intro stack' result s' hr
    rw [hreplacement, Prod.mk.injEq] at hr
    obtain ⟨hstack, hr⟩ := hr
    obtain ⟨placed, s₁, hok, hr⟩ := exists_of_bind_ok hr
    cases hr
    exact ⟨hstack.symm, by rw [hplaced hok]⟩
  · intro htable
    have hholding : (e.holding taken.names).table.Plain := htable
    have hpre (tokens : List Token) : Yields (e.holding taken.names) [] (fun _ => True) (all tokens) :=
      ⟨fun hs hok => ⟨((all_faultless hholding tokens).of_ok hs hok).1, trivial⟩, (all_faultless hholding tokens).of_error⟩
    have hyields := substituteFrom_yields hpre hplain (trailing_nil names) (Arguments.fold names.length found) m.body
    obtain ⟨placed, s', hok, -, -⟩ := hyields.exists_ok (s := { s with state := e.holding taken.names }) rfl
    refine ⟨s', ?_⟩
    rw [hreplacement, ← hplaced hok]
    exact congrArg _ (bind_of_ok hok)
  · intro names' hnames' hlength hargs
    exact Macro.clear_pieces hnames' hlength hargs

/-- A definition of a macro that pastes a parameter, and takes a comma along with an omitted argument. -/
def callLine : String :=
  "#define CALL(name, ...) do_ ## name(1, ## __VA_ARGS__)"

/-- The macro of this line. -/
def Macro.call : Macro :=
  { name := "CALL", shape := .variadic ["name"] "__VA_ARGS__", body := (Token.ofText callLine).drop 8 }

/-- An expander with this macro. -/
def Expander.calling : Expander :=
  { table := { user := [("CALL", .call)] } }

/-- The arguments of an invocation without the last one. -/
def calledWith : List Token :=
  [{ value := "it", kind := .stringLiteral, column := 1, generated := true }]

/-- What the line is parsed as. -/
theorem parsed_callLine : (Parse.directiveLine.run' { tokens := Token.ofText callLine }).map (·.directive) =
    some (.define { value := "CALL", kind := .identifier, column := 8, spaced := true }
      (some [{ value := "name", kind := .identifier, column := 13 }])
      (some { value := "__VA_ARGS__", kind := .identifier, column := 19, generated := true }) Macro.call.body) := by
  cbv

/-- What the arguments of the invocation are read as. -/
theorem read_calledWith : Arguments.read (·.kind = .eof) (Token.ofText "(it)") = .list 3 calledWith := by
  cbv

/-- What is left after the arguments of the invocation. -/
theorem consume_call : ({ input := Token.ofText "(it)" } : Stack).consume 3 =
    { stack := { input := [], taken := 3 }, crossed := [], missing := 0 } := by
  cbv

/-- The macro of the line has plain parameters. -/
theorem Expander.plain_calling : Expander.calling.table.Plain := by
  intro entry hentry params hparams
  obtain rfl := List.mem_singleton.mp hentry
  cases hparams
  unfold PlainParams
  decide

/-- Pasting the pieces of the body joins what has an operator between. -/
theorem pasted_call : Paste.paste ((Macro.call.pieces .calling calledWith).flatMap Piece.kept) =
    joined (Macro.call.pieces .calling calledWith) := by
  cbv

/-- What the joined pieces say. -/
theorem joined_call : (joined (Macro.call.pieces .calling calledWith)).map Token.value = ["do_it", "(", "1", ")"] := by
  cbv

/-- The line defines the macro, its pieces are clear, and the invocation is replaced by the joined ones. -/
theorem replacement_pasted_call : ∃ l c defined params variadic s',
    DirectiveLine.ofText callLine = .ok l c ∧ l.directive = .define defined params variadic Macro.call.body ∧
    Macro.call = Macro.ofParts defined params variadic Macro.call.body ∧ Macro.call.isFunctionLike = true ∧
    Expander.calling.table.get? "CALL" = some .call ∧ Expander.calling.table.Plain ∧
    Arguments.read (·.kind = .eof) (Token.ofText "(it)") = .list 3 calledWith ∧ Macro.call.accepts calledWith.length = true ∧
    Clear (Macro.call.pieces .calling calledWith) ∧
    replacement all (Token.word "CALL") { input := Token.ofText "(it)" } { state := .calling } =
      ({ input := [], taken := 3 }, .ok (some (relex (joined (Macro.call.pieces .calling calledWith)) (Token.word "CALL"))) s') ∧
    (joined (Macro.call.pieces .calling calledWith)).map Token.value = ["do_it", "(", "1", ")"] := by
  obtain ⟨l, c, hc, hdirective⟩ := map_run'_eq_some.mp parsed_callLine
  have hbalanced : Balanced .calling (Token.ofText "(it)") { input := Token.ofText "(it)" } { state := .calling } :=
    Balanced.start { state := .calling } (Token.ofText "(it)")
  have hget : Expander.calling.table.get? (Token.word "CALL").value = some .call := rfl
  have haccepts : Macro.call.accepts calledWith.length = true := by decide
  obtain ⟨-, hexists, hiff, -⟩ := replacement_pasted (m := .call) hc hdirective rfl rfl hbalanced hget read_calledWith haccepts
  rw [consume_call] at hexists hiff
  obtain ⟨s', hreplacement⟩ := hexists Expander.plain_calling
  refine ⟨l, c, _, _, _, s', hc, hdirective, rfl, rfl, hget, Expander.plain_calling, read_calledWith, haccepts, hiff.mp pasted_call, ?_,
    joined_call⟩
  rw [hreplacement, ← pasted_call]
  rfl

/-- The values of the tokens that replace an invocation of the macro of a line, and those of the joined pieces. -/
def replacedAndJoined (line invocation : String) : Option (List String × List String) :=
  match (Parse.directiveLine.run' { tokens := Token.ofText line }).map DirectiveLine.directive, Token.ofText invocation with
  | some (Directive.define defined params variadic body), name :: input =>
    let m := Macro.ofParts defined params variadic body
    let e : Expander := { table := { user := [(m.name, m)] } }
    match Arguments.read (·.kind = .eof) input, (replacement all name { input } { state := e }).2 with
    | .list _ found, .ok (some tokens) _ => some (tokens.map Token.value, (joined (m.pieces e found)).map Token.value)
    | _, _ => none
  | _, _ => none

/-- Tokens are pasted that have no operator of the body between them: beside an argument that reads as an operator, and beside an operator
with an omitted argument on its left. -/
theorem pasting_departs :
    replacedAndJoined "#define F(x) a x b" "F(##)" = some (["ab"], ["a", "##", "b"]) ∧
    replacedAndJoined "#define G(x, ...) x __VA_ARGS__ ## b" "G(a)" = some (["ab"], ["a", "b"]) ∧
    replacedAndJoined "#define H(x, ...) x ## ## __VA_ARGS__ b" "H(a)" = some (["ab"], ["a", "b"]) := by
  refine ⟨?_, ?_, ?_⟩ <;> cbv

end

end Prepass
